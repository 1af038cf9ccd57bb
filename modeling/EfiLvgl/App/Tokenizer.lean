import EfiLvgl.App.CommandLine

/-!
# EfiLvgl.App.Tokenizer — the option string against a reference tokeniser

The reference reads the trimmed string once: `lex` resolves the escapes, `group`
collects the symbols into tokens. The source goes over it with two scanners that
know nothing of each other: `FindEndOfParameter` looks for the end of a parameter
in the option string and `GetNextParameter` then deletes quotes and escapes in the
copy. Both are first put into the form of one scan (`paramEnd`, `unescape`), and
`group_paramEnd` says that the two scans together take one token off the reference.

The main result is `parseLoadOptionsToArgs_tokenises`.
-/

namespace EfiLvgl.App

open EfiLvgl.CString

/-! ## The reference -/

/-- A character of the command line once escapes are resolved. -/
inductive Sym where
  | lit (c : Char16)
  | space
  | quote
  | dropped
  deriving DecidableEq, Repr

/-- Resolve the escapes: `^` makes the next character literal, a final `^` is
dropped. -/
def lex : List Char16 → List Sym
  | [] => []
  | c :: str =>
      if c = caret then
        match str with
        | [] => [.dropped]
        | d :: str' => .lit d :: lex str'
      else if c = App.quote then .quote :: lex str
      else if c = App.space then .space :: lex str
      else .lit c :: lex str

/-- Collect symbols into tokens. `quoted` says whether a quote is open, the second
argument is the token in progress, if there is one: anything but a separating
space begins a token, so `""` is an empty one. -/
def group : Bool → Option (List Char16) → List Sym → List (List Char16)
  | _, token, [] => token.toList
  | quoted, token, .lit c :: syms => group quoted (some (token.getD [] ++ [c])) syms
  | quoted, token, .dropped :: syms => group quoted (some (token.getD [])) syms
  | quoted, token, .quote :: syms => group (!quoted) (some (token.getD [])) syms
  | true, token, .space :: syms => group true (some (token.getD [] ++ [App.space])) syms
  | false, token, .space :: syms => token.toList ++ group false none syms

/-- The tokens of a command line. -/
def tokens (str : List Char16) : List (List Char16) := group false none (lex str)

/-- An unescaped quote opens a group that no later unescaped quote closes: quotes
open and close in turn, so their number is odd. -/
def Unclosed (str : List Char16) : Prop := (lex str).count .quote % 2 = 1

instance (str : List Char16) : Decidable (Unclosed str) := inferInstanceAs (Decidable (_ = _))

/-- Spaces and tabs removed at both ends. -/
def trim (str : List Char16) : List Char16 := (str.dropWhile isBlank).rdropWhile isBlank

/-! ## The end of a parameter in one scan -/

theorem quote_ne_caret : quote ≠ caret := by decide

theorem space_ne_caret : space ≠ caret := by decide

theorem space_ne_quote : space ≠ quote := by decide

/-- Where the parameter ends, in one scan that knows whether a quote is open. -/
def paramEnd : Bool → List Char16 → Option Nat
  | quoted, [] => if quoted then none else some 0
  | quoted, c :: str =>
      if c = caret then
        match str with
        | [] => if quoted then none else some 1
        | _ :: str' => (paramEnd quoted str').map (· + 2)
      else if c = quote then (paramEnd (!quoted) str).map (· + 1)
      else if c = space ∧ quoted = false then some 0
      else (paramEnd quoted str).map (· + 1)

theorem paramEnd_quote (quoted : Bool) (str : List Char16) :
    paramEnd quoted (quote :: str) = (paramEnd (!quoted) str).map (· + 1) := by
  cases str <;> simp [paramEnd, quote_ne_caret]

theorem paramEnd_space (str : List Char16) : paramEnd false (space :: str) = some 0 := by
  cases str <;> simp [paramEnd, space_ne_caret, space_ne_quote]

theorem paramEnd_plain {quoted : Bool} {c : Char16} (hc : c ≠ caret) (hq : c ≠ quote)
    (hs : ¬ (c = space ∧ quoted = false)) (str : List Char16) :
    paramEnd quoted (c :: str) = (paramEnd quoted str).map (· + 1) := by
  cases str <;> simp only [paramEnd, if_neg hc, if_neg hq, if_neg hs]

/-- The characters `FindEndOfParameter` looks for outside and inside quotes. -/
def delimiters (quoted : Bool) : List Char16 := if quoted then [quote] else [space, quote]

/-- The scan runs on to the next delimiter. -/
theorem paramEnd_findFirst (quoted : Bool) (str : List Char16) :
    paramEnd quoted (cstr str) =
      (paramEnd quoted (cstr (str.drop (findFirstCharacter (delimiters quoted) caret str)))).map
        (findFirstCharacter (delimiters quoted) caret str + ·) := by
  fun_induction findFirstCharacter (delimiters quoted) caret str with
  | case1 => simp
  | case2 => simp
  | case3 hc => cases quoted <;> simp [cstr_cons (α := Char16) hc, paramEnd]
  | case4 str' hc =>
      cases quoted <;> simp [cstr_cons (α := Char16) hc, paramEnd, charNull]
  | case5 d str' hd hc ih =>
      rw [cstr_cons (α := Char16) hc, cstr_cons (α := Char16) hd, List.drop_succ_cons,
        List.drop_succ_cons, paramEnd]
      simp only [if_true]
      rw [ih, Option.map_map]
      congr 1
      funext k
      simp only [Function.comp]
      omega
  | case6 => simp
  | case7 c str hc hne hmem ih =>
      -- no delimiter: the one scan passes over it as well
      have hq : c ≠ quote := by
        rintro rfl
        exact hmem (by cases quoted <;> decide)
      have hs : ¬ (c = space ∧ quoted = false) := by
        rintro ⟨rfl, rfl⟩
        exact hmem (by decide)
      rw [cstr_cons (α := Char16) hc, List.drop_succ_cons, paramEnd_plain hne hq hs, ih,
        Option.map_map]
      congr 1
      funext k
      simp only [Function.comp]
      omega

/-- The walk stops at a delimiter or at the end. -/
theorem deref_findFirst (characterList : List Char16) (str : List Char16) :
    deref (str.drop (findFirstCharacter characterList caret str)) = charNull ∨
      deref (str.drop (findFirstCharacter characterList caret str)) ∈ characterList := by
  fun_induction findFirstCharacter characterList caret str with
  | case1 => simp [deref]
  | case2 => simp [deref]
  | case3 => simp [deref]
  | case4 => simp [deref]
  | case5 d str' hd hc ih => simpa using ih
  | case6 c str hc hne hmem => simp [deref, hmem]
  | case7 c str hc hne hmem ih => simpa using ih

theorem cstr_of_deref_eq {str : List Char16} (h : deref str = charNull) : cstr str = [] := by
  cases str with
  | nil => rfl
  | cons c str =>
      simp only [deref, List.headD_cons] at h
      simp [h, charNull]

theorem cstr_of_deref_ne {str : List Char16} (h : deref str ≠ charNull) :
    cstr str = deref str :: cstr (str.drop 1) := by
  cases str with
  | nil => simp [deref] at h
  | cons c str => exact cstr_cons h str

/-- When the first delimiter is not a space it opens a quote. -/
theorem paramEnd_open {str : List Char16}
    (hnull : deref (str.drop (findFirstCharacter [space, quote] caret str)) ≠ charNull)
    (hspace : deref (str.drop (findFirstCharacter [space, quote] caret str)) ≠ space) :
    paramEnd false (cstr str) =
      (paramEnd true (cstr (str.drop (findFirstCharacter [space, quote] caret str + 1)))).map
        (findFirstCharacter [space, quote] caret str + 1 + ·) := by
  have hquote : deref (str.drop (findFirstCharacter [space, quote] caret str)) = quote := by
    simpa [hnull, hspace] using deref_findFirst [space, quote] str
  rw [paramEnd_findFirst, show delimiters false = [space, quote] from rfl,
    cstr_of_deref_ne hnull, hquote, paramEnd_quote, List.drop_drop, Option.map_map]
  congr 1
  funext k
  simp only [Function.comp]
  omega

/-- `FindEndOfParameter` is the one scan. -/
theorem findEndOfParameter_eq (str : List Char16) :
    findEndOfParameter str = paramEnd false (cstr str) := by
  fun_induction findEndOfParameter str with
  | case1 str first hnull =>
      rw [paramEnd_findFirst, show delimiters false = [space, quote] from rfl,
        cstr_of_deref_eq hnull]
      simp [paramEnd, first]
  | case2 str first hnull hspace =>
      rw [paramEnd_findFirst, show delimiters false = [space, quote] from rfl,
        cstr_of_deref_ne hnull, hspace, paramEnd_space]
      simp [first]
  | case3 str first hnull hspace str' closeQuote hclose =>
      rw [paramEnd_open hnull hspace, paramEnd_findFirst,
        show delimiters true = [quote] from rfl, cstr_of_deref_eq hclose]
      simp [paramEnd]
  | case4 str first hnull hspace str' closeQuote hclose ih =>
      -- the quote is closed, and the walk goes on behind it
      have hquote : deref (str'.drop closeQuote) = quote := by
        have hor := deref_findFirst [quote] str'
        rw [List.mem_singleton] at hor
        exact hor.resolve_left hclose
      have hdrop : (str'.drop closeQuote).drop 1 = str'.drop (closeQuote + 1) := by
        rw [List.drop_drop]
      rw [paramEnd_open hnull hspace, paramEnd_findFirst,
        show delimiters true = [quote] from rfl, cstr_of_deref_ne hclose, hquote, paramEnd_quote,
        hdrop, Bool.not_true, ← ih]
      simp only [Option.map_map]
      congr 1
      funext k
      simp only [Function.comp, first, closeQuote, str']
      omega

theorem paramEnd_le_length {quoted : Bool} {str : List Char16} {n : Nat}
    (h : paramEnd quoted str = some n) : n ≤ str.length := by
  fun_induction paramEnd quoted str generalizing n with
  | case1 => simp at h
  | case2 => simp at h; omega
  | case3 => simp at h
  | case4 => simp at h; simp; omega
  | case5 quoted d str' ih =>
      obtain ⟨k, hk, rfl⟩ := Option.map_eq_some_iff.mp h
      simpa using ih hk
  | case6 quoted str _ ih =>
      obtain ⟨k, hk, rfl⟩ := Option.map_eq_some_iff.mp h
      simpa using ih hk
  | case7 => simp at h; omega
  | case8 quoted c str _ _ _ ih =>
      obtain ⟨k, hk, rfl⟩ := Option.map_eq_some_iff.mp h
      simpa using ih hk

/-! ## Removing quotes and escapes in one scan -/

/-- Quotes and escape characters removed. -/
def unescape : List Char16 → List Char16
  | [] => []
  | c :: str =>
      if c = caret then
        match str with
        | [] => []
        | d :: str' => d :: unescape str'
      else if c = quote then unescape str
      else c :: unescape str

theorem nextDelimFrom_plain {c : Char16} (hnull : c ≠ charNull) (hc : c ≠ caret) (hq : c ≠ quote)
    (pre rest : List Char16) :
    nextDelimFrom (pre ++ c :: rest) pre.length =
      nextDelimFrom (pre ++ [c] ++ rest) (pre ++ [c]).length := by
  have hmem : c ∉ [quote, caret] := by simp [hc, hq]
  have hdrop : (pre ++ [c] ++ rest).drop (pre.length + 1) = rest := by
    rw [List.append_assoc, List.drop_length_add_append]
    rfl
  rw [nextDelimFrom, nextDelimFrom, List.drop_left, List.length_append, List.length_singleton,
    hdrop, findFirstCharacter.eq_def]
  simp only [if_neg hnull, if_neg hmem]
  omega

theorem nextDelimFrom_delim {c : Char16} (h : c = charNull ∨ c = caret ∨ c = quote)
    (pre rest : List Char16) : nextDelimFrom (pre ++ c :: rest) pre.length = pre.length := by
  rw [nextDelimFrom, List.drop_left, findFirstCharacter.eq_def]
  rcases h with rfl | rfl | rfl
  · simp
  · simp [show caret ≠ charNull by decide]
  · simp [show quote ≠ charNull by decide]

/-- At an escape character: delete it and step over what follows. -/
theorem removeDelims_caret (pre : List Char16) {w : List Char16} (hw : charNull ∉ w)
    (r : List Char16) :
    removeDelims true (pre ++ caret :: (w ++ charNull :: r)) pre.length =
      removeDelims true (pre ++ (w ++ charNull :: charNull :: r))
        (nextDelimFrom (pre ++ (w ++ charNull :: charNull :: r)) (pre.length + 1)) := by
  have hdel := copyMem_delete pre caret (show (0 : Char16) ∉ w from hw) r
  have hnext : (pre ++ caret :: (w ++ charNull :: r)).drop (pre.length + 1) =
      w ++ charNull :: r := by
    rw [List.drop_length_add_append]; rfl
  rw [removeDelims, hnext, List.drop_left]
  simp only [deref, List.headD_cons, show caret ≠ charNull by decide, dite_false, if_true]
  rw [show charNull = 0 from rfl, hdel]

/-- At a quote: delete it. -/
theorem removeDelims_quote (pre : List Char16) {w : List Char16} (hw : charNull ∉ w)
    (r : List Char16) :
    removeDelims true (pre ++ quote :: (w ++ charNull :: r)) pre.length =
      removeDelims true (pre ++ (w ++ charNull :: charNull :: r))
        (nextDelimFrom (pre ++ (w ++ charNull :: charNull :: r)) pre.length) := by
  have hdel := copyMem_delete pre quote (show (0 : Char16) ∉ w from hw) r
  have hnext : (pre ++ quote :: (w ++ charNull :: r)).drop (pre.length + 1) =
      w ++ charNull :: r := by
    rw [List.drop_length_add_append]; rfl
  rw [removeDelims, hnext, List.drop_left]
  simp only [deref, List.headD_cons, show quote ≠ charNull by decide, quote_ne_caret, dite_false,
    if_false, if_true]
  rw [show charNull = 0 from rfl, hdel]

/-- The deletion loop, from a point up to which the buffer is done. -/
theorem removeDelims_eq (pre w r : List Char16) (hw : charNull ∉ w) :
    ∃ r', removeDelims true (pre ++ (w ++ charNull :: r))
        (nextDelimFrom (pre ++ (w ++ charNull :: r)) pre.length) =
      pre ++ (unescape w ++ charNull :: r') := by
  fun_induction unescape w generalizing pre r with
  | case1 =>
      refine ⟨r, ?_⟩
      rw [List.nil_append, nextDelimFrom_delim (Or.inl rfl), removeDelims]
      simp [deref]
  | case2 =>
      -- a final caret: the pointer moves behind the new terminator, on to the old one
      refine ⟨charNull :: r, ?_⟩
      have hpre : pre ++ ([] ++ charNull :: charNull :: r) =
          (pre ++ [charNull]) ++ charNull :: r := by simp
      have hlen : pre.length + 1 = (pre ++ [charNull]).length := by simp
      rw [List.cons_append, nextDelimFrom_delim (Or.inr (Or.inl rfl)),
        removeDelims_caret pre (List.not_mem_nil), hpre, hlen, nextDelimFrom_delim (Or.inl rfl),
        removeDelims]
      simp [deref]
  | case3 d str ih =>
      have hstr : charNull ∉ d :: str := fun h => hw (List.mem_cons_of_mem _ h)
      have hpre : ∀ x : List Char16, pre ++ (d :: str ++ x) = (pre ++ [d]) ++ (str ++ x) := by simp
      have hlen : pre.length + 1 = (pre ++ [d]).length := by simp
      obtain ⟨r', hr'⟩ := ih (pre ++ [d]) (charNull :: r)
        (fun h => hstr (List.mem_cons_of_mem _ h))
      refine ⟨r', ?_⟩
      rw [List.cons_append, nextDelimFrom_delim (Or.inr (Or.inl rfl)),
        removeDelims_caret pre hstr, hpre, hlen, hr']
      simp
  | case4 str _ ih =>
      have hstr : charNull ∉ str := fun h => hw (List.mem_cons_of_mem _ h)
      obtain ⟨r', hr'⟩ := ih pre (charNull :: r) hstr
      refine ⟨r', ?_⟩
      rw [List.cons_append, nextDelimFrom_delim (Or.inr (Or.inr rfl)),
        removeDelims_quote pre hstr, hr']
  | case5 c str hc hq ih =>
      have hnull : c ≠ charNull := fun h => hw (by simp [h])
      obtain ⟨r', hr'⟩ := ih (pre ++ [c]) r (fun h => hw (List.mem_cons_of_mem _ h))
      refine ⟨r', ?_⟩
      have happ : ∀ x : List Char16, pre ++ c :: x = pre ++ [c] ++ x := by simp
      rw [List.cons_append, nextDelimFrom_plain hnull hc hq, happ, hr']
      simp

theorem mem_of_mem_unescape {c : Char16} {str : List Char16} (h : c ∈ unescape str) : c ∈ str := by
  fun_induction unescape str with
  | case1 => simp at h
  | case2 => simp at h
  | case3 d str ih =>
      rcases List.mem_cons.mp h with rfl | h
      · simp
      · exact List.mem_cons_of_mem _ (List.mem_cons_of_mem _ (ih h))
  | case4 str _ ih => exact List.mem_cons_of_mem _ (ih h)
  | case5 d str _ _ ih =>
      rcases List.mem_cons.mp h with rfl | h
      · simp
      · exact List.mem_cons_of_mem _ (ih h)

/-! ## One token of the reference -/

theorem lex_quote (str : List Char16) : lex (quote :: str) = .quote :: lex str := by
  cases str <;> simp [lex, quote_ne_caret]

theorem lex_space (str : List Char16) : lex (space :: str) = .space :: lex str := by
  cases str <;> simp [lex, space_ne_caret, space_ne_quote]

theorem lex_lit {c : Char16} (hc : c ≠ caret) (hq : c ≠ quote) (hs : c ≠ space)
    (str : List Char16) : lex (c :: str) = .lit c :: lex str := by
  cases str <;> simp [lex, hc, hq, hs]

theorem unescape_plain {c : Char16} (hc : c ≠ caret) (hq : c ≠ quote) (str : List Char16) :
    unescape (c :: str) = c :: unescape str := by
  cases str <;> simp [unescape, hc, hq]

theorem unescape_quote (str : List Char16) : unescape (quote :: str) = unescape str := by
  cases str <;> simp [unescape, quote_ne_caret]

/-- The reference takes the parameter, unescaped, as the rest of its token and goes
on behind it. -/
theorem group_paramEnd {quoted : Bool} {str : List Char16} {n : Nat}
    (h : paramEnd quoted str = some n) (token : List Char16) :
    group quoted (some token) (lex str) =
      (token ++ unescape (str.take n)) :: tokens (str.drop n) := by
  fun_induction paramEnd quoted str generalizing n token with
  | case1 => simp at h
  | case2 =>
      simp only [Option.some.injEq] at h
      subst h
      simp [lex, group, unescape, tokens]
  | case3 => simp at h
  | case4 =>
      simp only [Option.some.injEq] at h
      subst h
      simp [lex, group, unescape, tokens]
  | case5 quoted d str' ih =>
      obtain ⟨k, hk, rfl⟩ := Option.map_eq_some_iff.mp h
      simp [lex, group, unescape, ih hk]
  | case6 quoted str _ ih =>
      obtain ⟨k, hk, rfl⟩ := Option.map_eq_some_iff.mp h
      simp [lex_quote, group, unescape_quote, ih hk]
  | case7 quoted c str _ _ hs =>
      obtain ⟨rfl, rfl⟩ := hs
      simp only [Option.some.injEq] at h
      subst h
      simp [lex_space, group, unescape, tokens]
  | case8 quoted c str hc hq hs ih =>
      obtain ⟨k, hk, rfl⟩ := Option.map_eq_some_iff.mp h
      -- a space gets here inside quotes only
      by_cases hsp : c = space
      · subst hsp
        have hquoted : quoted = true := by simpa using hs
        subst hquoted
        simp [lex_space, group, unescape_plain hc hq, ih hk]
      · simp [lex_lit hc hq hsp, group, unescape_plain hc hq, ih hk]

/-- A parameter closes the quotes it opens. -/
theorem count_quote_paramEnd {quoted : Bool} {str : List Char16} {n : Nat}
    (h : paramEnd quoted str = some n) :
    ((lex str).count .quote + quoted.toNat) % 2 = (lex (str.drop n)).count .quote % 2 := by
  fun_induction paramEnd quoted str generalizing n with
  | case1 => simp at h
  | case2 => simp at h; subst h; simp_all
  | case3 => simp at h
  | case4 => simp at h; subst h; simp_all [lex]
  | case5 quoted d str' ih =>
      obtain ⟨k, hk, rfl⟩ := Option.map_eq_some_iff.mp h
      simpa [lex] using ih hk
  | case6 quoted str _ ih =>
      obtain ⟨k, hk, rfl⟩ := Option.map_eq_some_iff.mp h
      -- a quote changes whether one is open, on both sides
      have hstep := ih hk
      rw [lex_quote, List.count_cons_self, List.drop_succ_cons, ← hstep]
      cases quoted
      · simp
      · simp
        omega
  | case7 quoted c str _ _ hs =>
      obtain ⟨rfl, rfl⟩ := hs
      simp at h
      subst h
      simp
  | case8 quoted c str hc hq hs ih =>
      obtain ⟨k, hk, rfl⟩ := Option.map_eq_some_iff.mp h
      by_cases hsp : c = space
      · simpa [hsp, lex_space] using ih hk
      · simpa [lex_lit hc hq hsp] using ih hk

/-- No end is found exactly when a quote stays open. -/
theorem count_quote_of_paramEnd_none {quoted : Bool} {str : List Char16}
    (h : paramEnd quoted str = none) : ((lex str).count .quote + quoted.toNat) % 2 = 1 := by
  fun_induction paramEnd quoted str with
  | case1 => simp [lex]
  | case2 => simp at h
  | case3 => simp [lex]
  | case4 => simp at h
  | case5 quoted d str' ih => simpa [lex] using ih (Option.map_eq_none_iff.mp h)
  | case6 quoted str _ ih =>
      have hstep := ih (Option.map_eq_none_iff.mp h)
      rw [lex_quote, List.count_cons_self]
      cases quoted <;> simp at hstep ⊢ <;> omega
  | case7 => simp at h
  | case8 quoted c str hc hq hs ih =>
      have hstep := ih (Option.map_eq_none_iff.mp h)
      by_cases hsp : c = space
      · simpa [hsp, lex_space] using hstep
      · simpa [lex_lit hc hq hsp] using hstep

/-! ## One call of `GetNextParameter` -/

theorem cstr_skipSpaces (str : List Char16) : cstr (skipSpaces str) = skipSpaces (cstr str) := by
  induction str with
  | nil => rfl
  | cons c str ih =>
      by_cases hc : c = space
      · subst hc
        rw [cstr_cons (show space ≠ 0 by decide), skipSpaces, skipSpaces]
        simpa using ih
      · by_cases hnull : c = 0
        · subst hnull
          simp [skipSpaces, hc]
        · rw [cstr_cons hnull, skipSpaces, skipSpaces, if_neg hc, if_neg hc, cstr_cons hnull]

theorem tokens_skipSpaces (str : List Char16) : tokens (skipSpaces str) = tokens str := by
  induction str with
  | nil => rfl
  | cons c str ih =>
      by_cases hc : c = space
      · subst hc
        simpa [skipSpaces, tokens, lex_space, group] using ih
      · simp [skipSpaces, hc]

theorem count_quote_skipSpaces (str : List Char16) :
    (lex (skipSpaces str)).count .quote = (lex str).count .quote := by
  induction str with
  | nil => rfl
  | cons c str ih =>
      by_cases hc : c = space
      · subst hc
        simpa [skipSpaces, lex_space] using ih
      · simp [skipSpaces, hc]

/-- The first symbol that is no space begins a token. -/
theorem tokens_eq_group {str : List Char16} (hne : str ≠ []) (hs : deref str ≠ space) :
    tokens str = group false (some []) (lex str) := by
  cases str with
  | nil => exact absurd rfl hne
  | cons c str =>
      replace hs : c ≠ space := hs
      by_cases hc : c = caret
      · subst hc
        cases str <;> simp [tokens, lex, group]
      · by_cases hq : c = quote
        · subst hq
          simp [tokens, lex_quote, group]
        · simp [tokens, lex_lit hc hq hs, group]

/-- The copy that `GetNextParameter` makes of the parameter. -/
theorem copied_parameter {str : List Char16} (temp : List Char16) {n size : Nat} (hn : n ≤ strLen str)
    (hsize : strLen str < size / 2) :
    ∃ r, (if deref (str.drop n) ≠ charNull then (strnCpyS temp (size / 2) str n).set n charNull
        else strnCpyS temp (size / 2) str n) = (cstr str).take n ++ charNull :: r := by
  have hmin : min (strLen str) n = n := Nat.min_eq_right hn
  have htake : str.take n = (cstr str).take n := by
    obtain ⟨r, hr⟩ := List.takeWhile_prefix (l := str) (fun c => decide (c ≠ 0))
    conv_lhs => rw [← hr]
    exact List.take_append_of_le_length hn
  have hcpy : strnCpyS temp (size / 2) str n =
      (cstr str).take n ++ charNull :: temp.drop (n + 1) := by
    rw [strnCpyS, hmin, if_neg (by omega), htake]
  have hlen : ((cstr str).take n).length = n := by
    rw [List.length_take]
    exact Nat.min_eq_left hn
  refine ⟨temp.drop (n + 1), ?_⟩
  rw [hcpy]
  split
  · rw [List.set_append_right _ _ (Nat.le_of_eq hlen)]
    simp [hlen]
  · rfl

theorem getNextParameter_none (debugCode : Bool) {start : List Char16} (temp : List Char16)
    (size : Nat) (stripQuotation : Bool) (hne : skipSpaces (cstr start) ≠ [])
    (hend : paramEnd false (skipSpaces (cstr start)) = none) :
    (getNextParameter debugCode (some start) temp size stripQuotation).status = .notFound := by
  have hlen : strLen (skipSpaces start) ≠ 0 := by
    rw [strLen, cstr_skipSpaces]
    simpa using hne
  have hend' : findEndOfParameter (skipSpaces start) = none := by
    rw [findEndOfParameter_eq, cstr_skipSpaces, hend]
  simp [getNextParameter, hlen, hend']

/-- A call that finds the end of the parameter moves behind it and leaves the
parameter, unescaped, in `TempParameter`. -/
theorem getNextParameter_some (debugCode : Bool) {start : List Char16} (temp : List Char16)
    {size n : Nat} (hsize : strLen start < size / 2) (hne : skipSpaces (cstr start) ≠ [])
    (hend : paramEnd false (skipSpaces (cstr start)) = some n) :
    ∃ str', cstr str' = (skipSpaces (cstr start)).drop n ∧
      (getNextParameter debugCode (some start) temp size true).status = .success ∧
      (getNextParameter debugCode (some start) temp size true).walker = some str' ∧
      cstr (getNextParameter debugCode (some start) temp size true).tempParameter =
        unescape ((skipSpaces (cstr start)).take n) := by
  have hlen : strLen (skipSpaces start) ≠ 0 := by
    rw [strLen, cstr_skipSpaces]
    simpa using hne
  have hend' : findEndOfParameter (skipSpaces start) = some n := by
    rw [findEndOfParameter_eq, cstr_skipSpaces, hend]
  have hn : n ≤ strLen (skipSpaces start) := by
    rw [strLen, cstr_skipSpaces]
    exact paramEnd_le_length hend
  have hle : strLen (skipSpaces start) ≤ strLen start := by
    rw [strLen, cstr_skipSpaces, strLen]
    exact length_skipSpaces_le _
  refine ⟨(skipSpaces start).drop n, ?_, ?_, ?_, ?_⟩
  · rw [cstr_drop hn, cstr_skipSpaces]
  · simp [getNextParameter, hlen, hend']
  · simp [getNextParameter, hlen, hend']
  · -- the parameter is copied whole, and its quotes and escapes are taken out
    obtain ⟨r, hr⟩ := copied_parameter temp hn (Nat.lt_of_le_of_lt hle hsize)
    have hnull : charNull ∉ (cstr (skipSpaces start)).take n := fun h =>
      zero_notMem_cstr _ (List.mem_of_mem_take h)
    have hnull' : charNull ∉ unescape ((cstr (skipSpaces start)).take n) :=
      fun h => hnull (mem_of_mem_unescape h)
    obtain ⟨r', hr'⟩ := removeDelims_eq [] _ r hnull
    simp only [List.nil_append, List.length_nil] at hr'
    simp only [getNextParameter, hlen, hend', if_false, hr, hr']
    rw [← cstr_skipSpaces]
    exact cstr_append_zero hnull' r'

/-- The status and `*Walker` do not depend on what is in `TempParameter` nor on
`StripQuotation`. -/
theorem getNextParameter_frame (debugCode : Bool) (walker : Option (List Char16))
    (temp temp' : List Char16) (size : Nat) (strip strip' : Bool) :
    (getNextParameter debugCode walker temp size strip).status =
        (getNextParameter debugCode walker temp' size strip').status ∧
      (getNextParameter debugCode walker temp size strip).walker =
        (getNextParameter debugCode walker temp' size strip').walker := by
  cases walker with
  | none => exact ⟨rfl, rfl⟩
  | some start =>
      by_cases hlen : strLen (skipSpaces start) = 0
      · simp [getNextParameter, hlen]
      · cases hend : findEndOfParameter (skipSpaces start) <;>
          simp [getNextParameter, hlen, hend]

/-! ## The two passes -/

theorem le_counted (debugCode : Bool) (size : Nat) (walker : Option (List Char16))
    (temp : List Char16) (count : Nat) :
    count ≤ (countParameters debugCode size walker temp count).1 := by
  fun_induction countParameters debugCode size walker temp count with
  | case1 => exact Nat.le_refl _
  | case2 => exact Nat.le_refl _
  | case3 walker temp count hdone next herr ih => exact Nat.le_of_succ_le ih

/-- The second pass stores at most one entry for each parameter the first counted,
whatever the pool does. -/
theorem stored_le_counted (debugCode : Bool) (pool : Nat → Nat → Bool) (size : Nat)
    (stripQuotation : Bool) (walker : Option (List Char16)) (temp temp' : List Char16)
    (argv : List (Option (List Char16))) (argc count : Nat) :
    (storeParameters debugCode pool size stripQuotation walker temp argv argc).argc + count ≤
      argc + (countParameters debugCode size walker temp' count).1 := by
  fun_induction countParameters debugCode size walker temp' count generalizing temp argv argc with
  | case1 walker temp' count hdone =>
      rw [storeParameters, if_pos hdone]
  | case2 walker temp' count hdone next herr =>
      rw [storeParameters, if_neg hdone]
      generalize List.replicate (size / 2) charNull ++ temp.drop (size / 2) = cleared
      -- the two passes move the same walker, whatever stands in the buffer
      have hframe := getNextParameter_frame debugCode walker cleared temp' size stripQuotation true
      have herr' : (getNextParameter debugCode walker cleared size
          stripQuotation).status.isError = true := by
        rw [hframe.1]
        exact herr
      simp [herr']
  | case3 walker temp' count hdone next herr ih =>
      rw [storeParameters, if_neg hdone]
      generalize List.replicate (size / 2) charNull ++ temp.drop (size / 2) = cleared
      have hframe := getNextParameter_frame debugCode walker cleared temp' size stripQuotation true
      have herr' : (getNextParameter debugCode walker cleared size
          stripQuotation).status.isError = false := by
        rw [hframe.1]
        simpa using herr
      simp only [herr', Bool.false_eq_true, dite_false]
      split
      · have hwalker : (getNextParameter debugCode walker cleared size stripQuotation).walker =
            next.walker := hframe.2
        rw [hwalker]
        generalize (getNextParameter debugCode walker cleared size
          stripQuotation).tempParameter = temp''
        have hle := ih temp'' (argv.set argc (some (cstr temp''))) (argc + 1)
        omega
      · have hle := le_counted debugCode size next.walker next.tempParameter (count + 1)
        simp only
        omega

/-- Nothing to skip at the end: `u` does not end in a space. -/
theorem skipSpaces_ne_nil {u : List Char16} (hne : u ≠ []) (hlast : u.getLast? ≠ some space) :
    skipSpaces u ≠ [] := by
  induction u with
  | nil => exact absurd rfl hne
  | cons c u ih =>
      by_cases hc : c = space
      · subst hc
        cases u with
        | nil => simp at hlast
        | cons d u =>
            rw [skipSpaces, if_pos rfl]
            exact ih (by simp) (by simpa using hlast)
      · simp [skipSpaces, hc]

theorem getLast?_skipSpaces {u : List Char16} (hlast : u.getLast? ≠ some space) :
    (skipSpaces u).getLast? ≠ some space := by
  induction u with
  | nil => simp [skipSpaces]
  | cons c u ih =>
      by_cases hc : c = space
      · subst hc
        rw [skipSpaces, if_pos rfl]
        cases u with
        | nil => simp [skipSpaces]
        | cons d u => exact ih (by simpa using hlast)
      · simpa [skipSpaces, hc] using hlast

theorem getLast?_drop_ne {u : List Char16} (hlast : u.getLast? ≠ some space) (n : Nat) :
    (u.drop n).getLast? ≠ some space := by
  rw [List.getLast?_drop]
  split
  · simp
  · exact hlast

/-- What is left of the option string when no quote is left open. -/
theorem walk_cases {u : List Char16} (hne : u ≠ []) (hlast : u.getLast? ≠ some space) :
    (paramEnd false (skipSpaces u) = none ∧ Unclosed u) ∨
      ∃ n, paramEnd false (skipSpaces u) = some n ∧
        tokens u = unescape ((skipSpaces u).take n) :: tokens ((skipSpaces u).drop n) ∧
        (Unclosed u ↔ Unclosed ((skipSpaces u).drop n)) ∧
        ((skipSpaces u).drop n).getLast? ≠ some space := by
  have hskip := skipSpaces_ne_nil hne hlast
  cases hend : paramEnd false (skipSpaces u) with
  | none =>
      have hcount := count_quote_of_paramEnd_none hend
      left
      refine ⟨rfl, ?_⟩
      rw [Unclosed, ← count_quote_skipSpaces]
      simpa using hcount
  | some n =>
      have hcount := count_quote_paramEnd hend
      right
      refine ⟨n, rfl, ?_, ?_, getLast?_drop_ne (getLast?_skipSpaces hlast) n⟩
      · rw [← tokens_skipSpaces u, tokens_eq_group hskip (deref_skipSpaces_ne u),
          group_paramEnd hend, List.nil_append]
      · rw [Unclosed, Unclosed, ← count_quote_skipSpaces, ← hcount]
        simp

theorem walkerDone_iff (str : List Char16) : walkerDone (some str) = true ↔ cstr str = [] := by
  constructor
  · intro h
    exact cstr_of_deref_eq (by simpa [walkerDone] using h)
  · intro h
    by_contra hne
    have hne' : deref str ≠ charNull := by simpa [walkerDone] using hne
    simp [cstr_of_deref_ne hne'] at h

theorem length_drop_lt_of_paramEnd {start : List Char16} {n : Nat}
    (hne : skipSpaces (cstr start) ≠ []) (hend : paramEnd false (skipSpaces (cstr start)) = some n) :
    ((skipSpaces (cstr start)).drop n).length < (cstr start).length := by
  have hend' : findEndOfParameter (skipSpaces start) = some n := by
    rw [findEndOfParameter_eq, cstr_skipSpaces, hend]
  have hlen : strLen (skipSpaces start) ≠ 0 := by
    rw [strLen, cstr_skipSpaces]
    simpa using hne
  have hpos := findEndOfParameter_pos (deref_ne_charNull_of_strLen hlen)
    (deref_skipSpaces_ne start) hend'
  have hle := length_skipSpaces_le (cstr start)
  have hlt : 0 < (skipSpaces (cstr start)).length := List.length_pos_iff.mpr hne
  rw [List.length_drop]
  omega

/-- The first pass counts the tokens of the reference. -/
theorem counted_eq (debugCode : Bool) (size k : Nat) :
    ∀ (str temp : List Char16) (count : Nat), (cstr str).length = k → strLen str < size / 2 →
      (cstr str).getLast? ≠ some space → ¬ Unclosed (cstr str) →
      (countParameters debugCode size (some str) temp count).1 =
        count + (tokens (cstr str)).length := by
  induction k using Nat.strong_induction_on with
  | _ k ih =>
    intro str temp count hk hsize hlast hclosed
    by_cases hnil : cstr str = []
    · rw [countParameters, if_pos ((walkerDone_iff str).mpr hnil), hnil]
      rfl
    · have hdone : ¬ walkerDone (some str) = true := fun h => hnil ((walkerDone_iff str).mp h)
      have hskip := skipSpaces_ne_nil hnil hlast
      -- an unclosed quote is excluded, so the walk takes one token and leaves a shorter text
      rcases walk_cases hnil hlast with ⟨-, hun⟩ | ⟨n, hend, htok, hun, hlast'⟩
      · exact absurd hun hclosed
      · obtain ⟨str', hstr', hst, hw, -⟩ :=
          getNextParameter_some debugCode temp hsize hskip hend
        have hlt := length_drop_lt_of_paramEnd hskip hend
        rw [← hstr'] at hlt hlast' hun htok
        have herr : (getNextParameter debugCode (some str) temp size true).status.isError =
            false := by
          rw [hst]
          rfl
        rw [countParameters, if_neg hdone]
        simp only [herr, hw, Bool.false_eq_true, dite_false]
        rw [ih _ (hk ▸ hlt) str' _ _ rfl (by rw [strLen] at *; omega) hlast'
          (fun h => hclosed (hun.mpr h)), htok, List.length_cons]
        omega

/-- One round of the second pass, when the pool serves it: what it does to `argv`,
and the tokens that are left. -/
theorem store_round (debugCode : Bool) {pool : Nat → Nat → Bool} (hpool : ∀ i n, pool i n = true)
    {size : Nat} {str : List Char16} (temp : List Char16) (argv : List (Option (List Char16)))
    (argc : Nat) (hsize : strLen str < size / 2) (hlast : (cstr str).getLast? ≠ some space)
    (hnil : cstr str ≠ []) :
    (Unclosed (cstr str) ∧
      storeParameters debugCode pool size true (some str) temp argv argc =
        ⟨.invalidParameter, argv, argc⟩) ∨
    ∃ str' temp', strLen str' < strLen str ∧ (cstr str').getLast? ≠ some space ∧
      (Unclosed (cstr str) ↔ Unclosed (cstr str')) ∧
      tokens (cstr str) = cstr temp' :: tokens (cstr str') ∧
      storeParameters debugCode pool size true (some str) temp argv argc =
        storeParameters debugCode pool size true (some str') temp'
          (argv.set argc (some (cstr temp'))) (argc + 1) := by
  have hdone : ¬ walkerDone (some str) = true := fun h => hnil ((walkerDone_iff str).mp h)
  have hskip := skipSpaces_ne_nil hnil hlast
  rw [storeParameters, if_neg hdone]
  generalize List.replicate (size / 2) charNull ++ temp.drop (size / 2) = cleared
  rcases walk_cases hnil hlast with ⟨hend, hun⟩ | ⟨n, hend, htok, hun, hlast'⟩
  · left
    have herr : (getNextParameter debugCode (some str) cleared size true).status.isError =
        true := by
      rw [getNextParameter_none debugCode cleared size true hskip hend]
      rfl
    exact ⟨hun, by simp [herr]⟩
  · right
    obtain ⟨str', hstr', hst, hw, htemp⟩ :=
      getNextParameter_some debugCode cleared hsize hskip hend
    have herr : (getNextParameter debugCode (some str) cleared size true).status.isError =
        false := by
      rw [hst]
      rfl
    -- one token is stored, and what is left is shorter and as well formed
    have hlt := length_drop_lt_of_paramEnd hskip hend
    rw [← hstr'] at hlt hlast' hun htok
    rw [← htemp] at htok
    refine ⟨str', _, hlt, hlast', hun, htok, ?_⟩
    simp only [herr, hw, hpool, Bool.false_eq_true, dite_false, if_true]

/-- The second pass ends with an error when a quote stays open. -/
theorem stored_of_unclosed (debugCode : Bool) {pool : Nat → Nat → Bool}
    (hpool : ∀ i n, pool i n = true) (size k : Nat) :
    ∀ (str temp : List Char16) (argv : List (Option (List Char16))) (argc : Nat),
      strLen str = k → strLen str < size / 2 → (cstr str).getLast? ≠ some space →
      Unclosed (cstr str) →
      (storeParameters debugCode pool size true (some str) temp argv argc).status =
        .invalidParameter := by
  induction k using Nat.strong_induction_on with
  | _ k ih =>
    intro str temp argv argc hk hsize hlast hun
    have hnil : cstr str ≠ [] := by
      intro hnil
      rw [hnil] at hun
      exact absurd hun (by decide)
    rcases store_round debugCode hpool temp argv argc hsize hlast hnil with
      ⟨-, hst⟩ | ⟨str', temp', hlt, hlast', hun', -, hst⟩
    · rw [hst]
    · rw [hst]
      exact ih _ (hk ▸ hlt) str' _ _ _ rfl (by omega) hlast' (hun'.mp hun)

/-- Otherwise it stores the tokens of the reference in the entries that are free. -/
theorem stored_of_closed (debugCode : Bool) {pool : Nat → Nat → Bool}
    (hpool : ∀ i n, pool i n = true) (size k : Nat) :
    ∀ (str temp : List Char16) (stored : List (Option (List Char16))),
      strLen str = k → strLen str < size / 2 → (cstr str).getLast? ≠ some space →
      ¬ Unclosed (cstr str) →
      storeParameters debugCode pool size true (some str) temp
          (stored ++ List.replicate (tokens (cstr str)).length none) stored.length =
        ⟨.success, stored ++ (tokens (cstr str)).map some,
          stored.length + (tokens (cstr str)).length⟩ := by
  induction k using Nat.strong_induction_on with
  | _ k ih =>
    intro str temp stored hk hsize hlast hclosed
    by_cases hnil : cstr str = []
    · rw [storeParameters, if_pos ((walkerDone_iff str).mpr hnil), hnil]
      rfl
    · rcases store_round debugCode hpool temp
          (stored ++ List.replicate (tokens (cstr str)).length none) stored.length hsize hlast hnil
        with ⟨hun, -⟩ | ⟨str', temp', hlt, hlast', hun, htok, hst⟩
      · exact absurd hun hclosed
      · -- the slot that is filled is the first empty one
        have hset : (stored ++ List.replicate (tokens (cstr str)).length none).set stored.length
            (some (cstr temp')) =
            (stored ++ [some (cstr temp')]) ++
              List.replicate (tokens (cstr str')).length none := by
          rw [htok, List.length_cons, List.replicate_succ]
          simp
        have hlen : stored.length + 1 = (stored ++ [some (cstr temp')]).length := by simp
        rw [hst, hset, hlen, ih _ (hk ▸ hlt) str' _ _ rfl (by omega) hlast'
          (fun h => hclosed (hun.mpr h)), htok]
        simp
        omega

/-! ## Trimming -/

theorem trimLeading_eq (w r : List Char16) (hw : charNull ∉ w) :
    ∃ r', trimLeading (w ++ charNull :: r) = w.dropWhile isBlank ++ charNull :: r' := by
  induction w generalizing r with
  | nil =>
      refine ⟨r, ?_⟩
      rw [trimLeading]
      simp [deref, isBlank_charNull]
  | cons c w ih =>
      have hc : c ≠ charNull := fun h => hw (by simp [h])
      have hw' : charNull ∉ w := fun h => hw (List.mem_cons_of_mem _ h)
      by_cases hb : isBlank c = true
      · obtain ⟨r', hr'⟩ := ih (charNull :: r) hw'
        refine ⟨r', ?_⟩
        have hdel := copyMem_delete [] c (show (0 : Char16) ∉ w from hw') r
        simp only [List.nil_append, List.length_nil, Nat.zero_add] at hdel
        rw [List.cons_append, trimLeading, dif_pos (by simpa [deref] using hb), copyMem_trim hc,
          show charNull = 0 from rfl, hdel, List.dropWhile_cons_of_pos hb]
        exact hr'
      · refine ⟨r, ?_⟩
        rw [List.cons_append, trimLeading, dif_neg (by simpa [deref] using hb),
          List.dropWhile_cons_of_neg hb]
        rfl

/-- The last character of a string is the one before its terminator. -/
theorem cstr_eq_concat {str : List Char16} (hpos : 0 < strLen str) :
    cstr str = (cstr str).take (strLen str - 1) ++ [deref (str.drop (strLen str - 1))] := by
  have hlast : cstr (str.drop (strLen str - 1)) = (cstr str).drop (strLen str - 1) :=
    cstr_drop (Nat.sub_le _ _)
  have hlen : (cstr (str.drop (strLen str - 1))).length = 1 := by
    rw [hlast, List.length_drop, strLen]
    rw [strLen] at hpos
    omega
  have hne : deref (str.drop (strLen str - 1)) ≠ charNull := by
    intro h
    rw [cstr_of_deref_eq h] at hlen
    simp at hlen
  have hsingle : cstr (str.drop (strLen str - 1)) = [deref (str.drop (strLen str - 1))] := by
    rw [cstr_of_deref_ne hne] at hlen ⊢
    simpa using hlen
  rw [← hsingle, hlast, List.take_append_drop]

theorem cstr_trimTrailing (str : List Char16) :
    cstr (trimTrailing str) = (cstr str).rdropWhile isBlank := by
  fun_induction trimTrailing str with
  | case1 str h ih =>
      have hset : cstr (str.set (strLen str - 1) charNull) = (cstr str).take (strLen str - 1) :=
        cstr_set_zero (by omega)
      rw [ih, hset]
      conv_rhs => rw [cstr_eq_concat h.1]
      rw [List.rdropWhile_concat_pos _ _ _ h.2]
  | case2 str h =>
      by_cases hpos : 0 < strLen str
      · rw [cstr_eq_concat hpos, List.rdropWhile_concat_neg]
        exact fun hb => h ⟨hpos, hb⟩
      · have hnil : cstr str = [] := by
          rw [strLen] at hpos
          exact List.length_eq_zero_iff.mp (by omega)
        simp [hnil]

theorem cstr_trimSpaces (w : List Char16) (hw : charNull ∉ w) :
    cstr (trimSpaces (w ++ [charNull])) = trim w := by
  obtain ⟨r', hr'⟩ := trimLeading_eq w [] hw
  have hw' : charNull ∉ w.dropWhile isBlank := fun h =>
    hw ((List.dropWhile_suffix isBlank).subset h)
  rw [trimSpaces, hr', cstr_trimTrailing, trim]
  exact congrArg _ (cstr_append_zero hw' r')

theorem getLast?_trim (w : List Char16) : (trim w).getLast? ≠ some space := by
  intro h
  have hne : (w.dropWhile isBlank).rdropWhile isBlank ≠ [] := by
    intro hnil
    rw [trim, hnil] at h
    simp at h
  have hlast := List.rdropWhile_last_not isBlank _ hne
  rw [trim, List.getLast?_eq_some_getLast hne, Option.some.injEq] at h
  rw [h] at hlast
  exact hlast (by decide)

/-! ## The whole function -/

/-- The second pass never stores more entries than the first counted. -/
theorem parse_stored_le_count (debugCode : Bool) (pool : Nat → Nat → Bool)
    (options : List Char16) (stripQuotation : Bool) (args : Args) :
    (parseLoadOptionsToArgs debugCode pool (some options) stripQuotation args).stored ≤
      (parseLoadOptionsToArgs debugCode pool (some options) stripQuotation args).count := by
  simp only [parseLoadOptionsToArgs]
  split
  · exact Nat.le_refl _
  · split
    · exact Nat.le_refl _
    · split
      · exact Nat.le_refl _
      · split
        · exact Nat.zero_le _
        · simpa using stored_le_counted debugCode pool _ stripQuotation _ _ _ _ 0 0

theorem parse_of_served (debugCode : Bool) {pool : Nat → Nat → Bool}
    (hpool : ∀ i n, pool i n = true) {options : List Char16} (hlen : strLen options ≠ 0)
    (args : Args) :
    let view := trimSpaces (cstr options ++ [charNull])
    let counted := countParameters debugCode (2 * strSize view) (some view)
      (List.replicate (2 * strSize view / 2) charNull) 0
    let stored := storeParameters debugCode pool (2 * strSize view) true (some view) counted.2
      (List.replicate counted.1 none) 0
    parseLoadOptionsToArgs debugCode pool (some options) true args =
      ⟨stored.status, ⟨some stored.argv, stored.argc⟩, counted.1, stored.argc⟩ := by
  simp only [parseLoadOptionsToArgs, hlen, hpool, if_false, Bool.true_eq_false]

/-- For every option string: the second pass stores no more than the first counted,
and when the pool serves every request the result is that of the reference. -/
theorem parseLoadOptionsToArgs_tokenises (debugCode : Bool) (pool : Nat → Nat → Bool)
    (options : List Char16) (args : Args) :
    let parsed := parseLoadOptionsToArgs debugCode pool (some options) true args
    let str := trim (cstr options)
    parsed.stored ≤ parsed.count ∧
      ((∀ i n, pool i n = true) →
        (parsed.status = .invalidParameter ↔ Unclosed str) ∧
        (¬ Unclosed str → parsed.status = .success ∧ parsed.args.argc = (tokens str).length ∧
          parsed.args.params = (tokens str).map some)) := by
  intro parsed str
  refine ⟨parse_stored_le_count debugCode pool options true args, fun hpool => ?_⟩
  by_cases hlen : strLen options = 0
  · have hstr : str = [] := by
      have hnil : cstr options = [] := List.length_eq_zero_iff.mp hlen
      simp [str, hnil, trim]
    have hparsed : parsed = ⟨.success, ⟨none, 0⟩, 0, 0⟩ := by
      simp [parsed, parseLoadOptionsToArgs, hlen]
    rw [hparsed, hstr]
    exact ⟨by decide, fun _ => ⟨rfl, rfl, rfl⟩⟩
  -- from here on the walks are over the trimmed text
  · have hcstr : cstr (trimSpaces (cstr options ++ [charNull])) = str :=
      cstr_trimSpaces _ (zero_notMem_cstr options)
    generalize hview : trimSpaces (cstr options ++ [charNull]) = view at hcstr
    have hsize : strLen view < 2 * strSize view / 2 := by rw [strSize]; omega
    have hlast : (cstr view).getLast? ≠ some space := by
      rw [hcstr]
      exact getLast?_trim _
    have hparsed := parse_of_served debugCode hpool hlen args
    simp only [hview] at hparsed
    by_cases hun : Unclosed str
    · have hst : parsed.status = .invalidParameter := by
        simp only [parsed, hparsed]
        exact stored_of_unclosed debugCode hpool _ _ view _ _ _ rfl hsize hlast (hcstr ▸ hun)
      exact ⟨⟨fun _ => hun, fun _ => hst⟩, fun h => absurd hun h⟩
    · have hcount : ∀ temp, (countParameters debugCode (2 * strSize view) (some view) temp 0).1 =
          (tokens (cstr view)).length := fun temp => by
        simpa using counted_eq debugCode _ _ view temp 0 rfl hsize hlast (hcstr ▸ hun)
      have hstored : ∀ temp, storeParameters debugCode pool (2 * strSize view) true (some view)
          temp (List.replicate (tokens (cstr view)).length none) 0 =
          ⟨.success, (tokens (cstr view)).map some, (tokens (cstr view)).length⟩ := fun temp => by
        simpa using stored_of_closed debugCode hpool _ _ view temp [] rfl hsize hlast (hcstr ▸ hun)
      rw [hcount, hstored, hcstr] at hparsed
      simp [parsed, hparsed, hun, Args.params, List.take_of_length_le]

/-- `a "b c" ^"` has three tokens. -/
theorem parse_quoted_example :
    (parseLoadOptionsToArgs false (fun _ _ => true)
      (some (text ['a', ' ', '"', 'b', ' ', 'c', '"', ' ', '^', '"'] ++ [charNull])) true
      ⟨none, 0⟩).args.params =
      [some (text ['a']), some (text ['b', ' ', 'c']), some (text ['"'])] :=
  (((parseLoadOptionsToArgs_tokenises false (fun _ _ => true)
    (text ['a', ' ', '"', 'b', ' ', 'c', '"', ' ', '^', '"'] ++ [charNull]) ⟨none, 0⟩).2
      (fun _ _ => rfl)).2 (by decide)).2.2.trans (by decide)

end EfiLvgl.App
