import EfiLvgl.Uefi.InPlace
import EfiLvgl.Uefi.Resolve

/-!
# EfiLvgl.Uefi.Prototype — prototypes of functions

`F(N,2H,P)` describes a function by the type of its result and those of its arguments. The loop
over a prototype stops at the eleventh type. A prototype of at most ten arguments is read as it is
written (`prototype_read`); in a longer one the reader of typecodes goes on in the middle of the
arguments. It has to stumble there before it comes to a typecode, or the object is left with what
was made of the surplus, also when the cast raises (`overlong_refused_iff`).
-/

namespace EfiLvgl.Uefi

/-! ## Texts of prototypes -/

/-- A text that can stand for one type of a prototype. -/
def TypeText (s : Str) : Prop := ∀ c ∈ s, c ≠ '(' ∧ c ≠ ',' ∧ c ≠ ')'

/-- The arguments of a prototype, the first of them apart, and the parenthesis behind them. -/
def params (w : Str) : List Str → Str
  | [] => w ++ [')']
  | x :: more => w ++ ',' :: params x more

/-- A prototype as it is written. -/
def protoText (r : Str) (specs : List Str) : Str :=
  'F' :: (r ++ '(' :: (List.intercalate [','] specs ++ [')']))

theorem params_tail {w : Str} (hw : w ≠ []) (more : List Str) :
    ∃ c, params w more = c :: params w.tail more := by
  cases w with
  | nil => exact absurd rfl hw
  | cons c w =>
      cases more with
      | nil => exact ⟨c, rfl⟩
      | cons x more => exact ⟨c, rfl⟩

theorem params_eq (w : Str) (more : List Str) :
    params w more = List.intercalate [','] (w :: more) ++ [')'] := by
  induction more generalizing w with
  | nil => simp [params]
  | cons x more ih => simp [params, ih, List.intercalate, List.intersperse]

/-! ## The loop -/

/-- The types that are collected from the arguments: an empty text is none. -/
def given (w : Str) (more : List Str) : List Str := if w = [] then more else w :: more

/-- What the loop leaves of the arguments that it has no place for: it steps over one character. -/
def surplus : List Str → Str
  | [] => []
  | x :: more => params x.tail more

/-- A type that starts with `V`. -/
def variadic (s : Str) : Bool := s.head? == some 'V'

section Loop

variable (items : List (Option Str)) (hasvarg : Bool)

/-- The loop collects the characters of one type. -/
theorem prototype_chars (hn : items.length < 11) {w : Str} (hw : TypeText w) (cur rest : Str) :
    prototype items hasvarg cur (w ++ rest) = prototype items hasvarg (cur ++ w) rest := by
  induction w generalizing cur with
  | nil => rw [List.nil_append, List.append_nil]
  | cons c w ih =>
      have hc := hw c List.mem_cons_self
      rw [List.cons_append, prototype, if_neg (by omega), if_neg hc.1,
        if_neg (not_or.mpr hc.2), ih fun d hd => hw d (List.mem_cons_of_mem c hd)]
      simp

/-- Behind the type of the result. -/
theorem prototype_result (hn : items.length < 11) {r : Str} (hr : TypeText r) (rest : Str) :
    prototype items hasvarg [] (r ++ '(' :: rest) =
      prototype (items ++ [if r = [] then none else some r]) hasvarg [] rest := by
  rw [prototype_chars items hasvarg hn hr, List.nil_append, prototype, if_neg (by omega),
    if_pos rfl]

/-- Behind the type of an argument that is not the last one. -/
theorem prototype_comma (hn : items.length < 11) {w : Str} (hw : TypeText w) (rest : Str) :
    prototype items hasvarg [] (w ++ ',' :: rest) =
      prototype (items ++ (given w []).map some) (hasvarg || variadic w) [] rest := by
  rw [prototype_chars items hasvarg hn hw, List.nil_append, prototype, if_neg (by omega),
    if_neg (by decide), if_pos (Or.inl rfl)]
  dsimp only
  rw [if_neg (by decide), given, variadic]
  split
  · rw [List.map_nil, List.append_nil]
  · rfl

/-- Behind the type of the last argument. -/
theorem prototype_close (hn : items.length < 11) {w : Str} (hw : TypeText w) :
    prototype items hasvarg [] (w ++ [')']) =
      (items ++ (given w []).map some, hasvarg || variadic w, []) := by
  rw [prototype_chars items hasvarg hn hw, List.nil_append, prototype, if_neg (by omega),
    if_neg (by decide), if_pos (Or.inr rfl)]
  dsimp only
  rw [if_pos rfl, given, variadic]
  split
  · rw [List.map_nil, List.append_nil]
  · rfl

/-- The loop over the arguments: it collects as many types as there is place for. -/
theorem prototype_params (hn : items.length < 11) {w : Str} {more : List Str} (hw : TypeText w)
    (hmore : ∀ x ∈ more, x ≠ [] ∧ TypeText x) :
    prototype items hasvarg [] (params w more) =
      (items ++ ((given w more).take (11 - items.length)).map some,
        hasvarg || ((given w more).take (11 - items.length)).any variadic,
        surplus ((given w more).drop (11 - items.length))) := by
  induction more generalizing items hasvarg w with
  | nil =>
      obtain ⟨k, hk⟩ : ∃ k, 11 - items.length = k + 1 := ⟨10 - items.length, by omega⟩
      rw [params, prototype_close items hasvarg hn hw, hk]
      unfold given
      split
      · next hnil => rw [hnil]; simp [variadic, surplus]
      · simp [surplus]
  | cons x more ih =>
      rw [List.forall_mem_cons] at hmore
      have hgiven : given x more = x :: more := if_neg hmore.1.1
      rw [params, prototype_comma items hasvarg hn hw]
      by_cases hnil : w = []
      · subst hnil
        have hnext := ih items hasvarg hn hmore.1.2 hmore.2
        rw [hgiven] at hnext
        simpa [given, variadic] using hnext
      · have hone : given w [] = [w] := if_neg hnil
        have hall : given w (x :: more) = w :: x :: more := if_neg hnil
        obtain ⟨k, hk⟩ : ∃ k, 11 - items.length = k + 1 := ⟨10 - items.length, by omega⟩
        have hlen : (items ++ [some w]).length = items.length + 1 := List.length_append
        rw [hone, hall, hk, List.take_succ_cons, List.drop_succ_cons]
        cases k with
        | zero =>
            -- the eleventh type: the loop ends in front of the next one
            obtain ⟨c, hc⟩ := params_tail hmore.1.1 more
            rw [hc, prototype, if_pos (by simp; omega)]
            simp [surplus]
        | succ k =>
            have hnext := ih (items ++ [some w]) (hasvarg || variadic w) (by rw [hlen]; omega)
              hmore.1.2 hmore.2
            rw [hlen, hgiven, show 11 - (items.length + 1) = k + 1 by omega] at hnext
            rw [List.map_singleton, hnext]
            simp [Bool.or_assoc]

end Loop

/-! ## Reading a prototype -/

/-- The type of the result as it is kept. -/
def resultItem (r : Str) : Option Str := if r = [] then none else some r

theorem protoText_params (r : Str) (specs : List Str) :
    protoText r specs = 'F' :: (r ++ '(' :: params (specs.headD []) specs.tail) := by
  cases specs with
  | nil => rfl
  | cons w more => rw [protoText, List.headD_cons, List.tail_cons, params_eq]

/-- The loop over a whole prototype. -/
theorem prototype_text {r : Str} {specs : List Str} (hr : TypeText r)
    (hspecs : ∀ s ∈ specs, s ≠ [] ∧ TypeText s) :
    prototype [] false [] (r ++ '(' :: params (specs.headD []) specs.tail) =
      (resultItem r :: (specs.take 10).map some, (specs.take 10).any variadic,
        surplus (specs.drop 10)) := by
  have hhead : TypeText (specs.headD []) := by
    cases specs with
    | nil => exact fun c hc => nomatch hc
    | cons s specs => exact (hspecs s List.mem_cons_self).2
  have hgiven : given (specs.headD []) specs.tail = specs := by
    cases specs with
    | nil => rfl
    | cons s specs => exact if_neg (hspecs s List.mem_cons_self).1
  have hparams := prototype_params [resultItem r] false (by simp) hhead
    fun x hx => hspecs x (List.mem_of_mem_tail hx)
  rw [prototype_result [] false (by simp) hr, List.nil_append]
  rw [hgiven] at hparams
  exact hparams

section Cast

variable {a : Arch} {deref : Mem → Str → Res Mem} {r : Str} {specs : List Str}

/-- What is cast to a prototype, in front of the text that the loop leaves. -/
def Mem.asFunction (a : Arch) (self : Mem) (r : Str) (specs : List Str) : Mem :=
  { self with
    typespec := some (protoText r specs)
    typesize := a.ptrSize
    type := .fptr
    fields := .args (resultItem r :: (specs.take 10).map some)
    hasvarg := self.hasvarg || (specs.take 10).any variadic }

theorem castByStr_proto (hr : TypeText r) (hspecs : ∀ s ∈ specs, s ≠ [] ∧ TypeText s) (self : Mem) :
    castByStr a deref self (protoText r specs) =
      byStrLoop a deref (self.asFunction a r specs) 0 false (surplus (specs.drop 10)) := by
  have hne : r ++ '(' :: params (specs.headD []) specs.tail ≠ [] := by simp
  unfold Mem.asFunction
  rw [castByStr, protoText_params, byStrLoop_function _ _ _ _ hne, prototype_text hr hspecs]

theorem castByStr_short (hr : TypeText r) (hspecs : ∀ s ∈ specs, s ≠ [] ∧ TypeText s)
    (hk : specs.length ≤ 10) (self : Mem) :
    castByStr a deref self (protoText r specs) = .ok (self.asFunction a r specs) := by
  rw [castByStr_proto hr hspecs, List.drop_eq_nil_of_le hk, surplus, byStrLoop_nil]
  rfl

end Cast

/-- A prototype has no repeat count. -/
theorem count_proto (a : Arch) (r : Str) (specs : List Str) :
    repeatCount a (protoText r specs) = 1 ∧ afterCount (protoText r specs) = protoText r specs := by
  constructor
  · rw [repeatCount, protoText, List.takeWhile_cons_of_neg (by decide)]
    rfl
  · rw [afterCount, protoText, List.dropWhile_cons_of_neg (by decide)]

/-- A prototype of at most ten arguments makes a function of just these types. -/
theorem prototype_read (a : Arch) (ns : Namespace) (n : Nat) {r : Str} {specs : List Str}
    (hr : TypeText r) (hspecs : ∀ s ∈ specs, s ≠ [] ∧ TypeText s) (hk : specs.length ≤ 10)
    (addr : Nat) (pmem readonly : Bool) (alloc : Nat → Nat) :
    ∃ m, efiMemMakeNew a ns n (.spec (protoText r specs)) addr pmem readonly alloc = .ok m ∧
      m.type = .fptr ∧ m.fields = .args ((if r = [] then none else some r) :: specs.map some) ∧
      (m.hasvarg = true ↔ ∃ s ∈ specs, s.head? = some 'V') := by
  have hnew : efiMemNew a ns n addr (some (protoText r specs)) readonly pmem =
      .ok (Mem.sized a ((blank addr readonly).asFunction a r specs) 1 pmem) := by
    refine (newBySpec_ok a _).mpr ⟨(blank addr readonly).asFunction a r specs, ?_, ?_⟩
    · rw [(count_proto a r specs).2, castByStr_short hr hspecs hk]
    · rw [(count_proto a r specs).1]
  obtain ⟨need, hobj⟩ : ∃ need, makeNewObj a ns n addr pmem readonly (.spec (protoText r specs)) =
      .ok (Mem.sized a ((blank addr readonly).asFunction a r specs) 1 pmem, need) := by
    rw [makeNewObj_spec a ns n addr pmem readonly (by simp [protoText]), hnew]
    exact ⟨_, rfl⟩
  have hitems : resultItem r :: (specs.take 10).map some = resultItem r :: specs.map some := by
    rw [List.take_of_length_le hk]
  have hflag : (false || (specs.take 10).any variadic) = true ↔
      ∃ s ∈ specs, s.head? = some 'V' := by
    rw [List.take_of_length_le hk, Bool.false_or]
    simp [variadic]
  rw [efiMemMakeNew, hobj, bind_ok_left]
  dsimp only
  split
  · -- the types of a prototype are not moved
    have hvisits : visits (Mem.sized a ((blank addr readonly).asFunction a r specs) 1 pmem).typespec =
        false := rfl
    rw [efiMemUpdateAddr_eq, hvisits]
    exact ⟨_, rfl, rfl, congrArg Fields.args hitems, hflag⟩
  · exact ⟨_, rfl, rfl, congrArg Fields.args hitems, hflag⟩

/-- `F(2H,V)`. -/
theorem prototype_read_two :
    TypeText [] ∧ (∀ s ∈ [['2', 'H'], ['V']], s ≠ [] ∧ TypeText s) ∧
      ∃ m, efiMemMakeNew .x64 noNames 0 (.spec (protoText [] [['2', 'H'], ['V']])) 4096 false false
          (fun _ => 0) = .ok m ∧
        m.type = .fptr ∧ m.fields = .args [none, some ['2', 'H'], some ['V']] ∧
        (m.hasvarg = true ↔ ∃ s ∈ [['2', 'H'], ['V']], s.head? = some 'V') := by
  have hr : TypeText [] := fun c hc => nomatch hc
  have hspecs : ∀ s ∈ [['2', 'H'], ['V']], s ≠ [] ∧ TypeText s := by
    simp [TypeText]
  exact ⟨hr, hspecs,
    prototype_read .x64 noNames 0 hr hspecs (by decide) 4096 false false fun _ => 0⟩

/-! ## Prototypes that are too long -/

/-- The attributes that say what the object is. -/
def Attr.ofType : Attr → Bool
  | .args | .fields | .type | .typesize | .bitoff => true
  | _ => false

/-- A cast to a prototype raises, and the object that it leaves is a function of the first ten
arguments: none of the text behind them was read as a typecode. -/
def Refuses (a : Arch) (ns : Namespace) (self : Mem) (r : Str) (specs : List Str) : Prop :=
  ∃ n type msg self' writes,
    castInPlace a ns n self (.str (protoText r specs)) = ⟨self', writes, some (.raise type msg)⟩ ∧
      self' = self.asFunction a r specs ∧ writes.filter Attr.ofType = [.typesize, .type, .args]

/-- Behind digits the text of an argument has no typecode, and no colon. -/
def NoTypecode (w : Str) : Prop :=
  ∀ c, (w.dropWhile Char.isDigit).head? = some c → c.isAlpha = false ∧ c ≠ ':'

theorem noTypecode_digit {c : Char} (hc : c.isDigit = true) (w : Str) :
    NoTypecode (c :: w) ↔ NoTypecode w := by
  rw [NoTypecode, NoTypecode, List.dropWhile_cons_of_pos hc]

theorem noTypecode_cons {c : Char} (hc : ¬ c.isDigit = true) (w : Str) :
    NoTypecode (c :: w) ↔ c.isAlpha = false ∧ c ≠ ':' := by
  rw [NoTypecode, List.dropWhile_cons_of_neg hc, List.head?_cons]
  simp

section Surplus

variable {a : Arch} {deref : Mem → Str → InPlace}

/-- What is no typecode. -/
theorem byStrInPlace_invalid {c : Char} (hd : ¬ c.isDigit = true) (hα : ¬ c.isAlpha = true)
    (hcolon : c ≠ ':') (self : Mem) (num : Nat) (bitfield : Bool) (rest : Str) :
    byStrInPlace a deref self num bitfield (c :: rest) =
      ⟨self, [], some (.raise .valueError "Invalid type format")⟩ := by
  rw [byStrInPlace, if_neg hd, if_neg hα, if_neg hcolon]

/-- A letter sets `typesize` first. -/
theorem byStrInPlace_letter {c : Char} (hd : ¬ c.isDigit = true) (hα : c.isAlpha = true)
    (self : Mem) (num : Nat) (bitfield : Bool) (rest : Str) :
    ∃ writes, (byStrInPlace a deref self num bitfield (c :: rest)).writes = .typesize :: writes := by
  rw [byStrInPlace, if_neg hd, if_pos hα]
  dsimp only
  split
  · split
    · exact ⟨_, rfl⟩
    · exact ⟨_, rfl⟩
  · split
    · split
      · exact ⟨_, rfl⟩
      · exact ⟨_, rfl⟩
    · split
      · exact ⟨_, rfl⟩
      · split
        · exact ⟨_, rfl⟩
        · exact ⟨_, rfl⟩

theorem byStrInPlace_function {rest : Str} (hr : rest ≠ []) (self : Mem) (num : Nat)
    (bitfield : Bool) :
    byStrInPlace a deref self num bitfield ('F' :: rest) =
      (byStrInPlace a deref { self with
        typesize := a.ptrSize
        type := .fptr
        fields := .args (prototype [] false [] rest).1
        hasvarg := self.hasvarg || (prototype [] false [] rest).2.1 } 0 bitfield
        (prototype [] false [] rest).2.2).behind ([.typesize, .type] ++
          (if (prototype [] false [] rest).2.1 then [.hasvarg] else []) ++ [.args]) := by
  rw [byStrInPlace, if_neg (by decide), if_pos (by decide)]
  simp [hr, typeSize]

/-- The text behind a type starts with a comma or the parenthesis. -/
theorem params_nil_head (more : List Str) :
    ∃ c rest, params [] more = c :: rest ∧ (c = ',' ∨ c = ')') := by
  cases more with
  | nil => exact ⟨')', [], rfl, Or.inr rfl⟩
  | cons x more => exact ⟨',', params x more, rfl, Or.inl rfl⟩

theorem params_cons (c : Char) (w : Str) (more : List Str) :
    params (c :: w) more = c :: params w more := by
  cases more <;> rfl

/-- Without a typecode the reader passes over the digits, and raises. -/
theorem byStrInPlace_refuses {w : Str} (hw : NoTypecode w) (more : List Str) (self : Mem)
    (num : Nat) (bitfield : Bool) :
    byStrInPlace a deref self num bitfield (params w more) =
      ⟨self, [], some (.raise .valueError "Invalid type format")⟩ := by
  induction w generalizing num with
  | nil =>
      rcases params_nil_head more with ⟨c, rest, hparams, hc⟩
      rw [hparams]
      rcases hc with rfl | rfl
      · exact byStrInPlace_invalid (by decide) (by decide) (by decide) self num bitfield rest
      · exact byStrInPlace_invalid (by decide) (by decide) (by decide) self num bitfield rest
  | cons c w ih =>
      rw [params_cons]
      by_cases hd : c.isDigit = true
      · rw [byStrInPlace, if_pos hd]
        exact ih ((noTypecode_digit hd w).mp hw) _
      · obtain ⟨hα, hcolon⟩ := (noTypecode_cons hd w).mp hw
        exact byStrInPlace_invalid hd (by simp [hα]) hcolon self num bitfield _

/-- A typecode or a colon sets an attribute of the type. -/
theorem byStrInPlace_writes {w : Str} (hw : ¬ NoTypecode w) (more : List Str) {self : Mem}
    (h8 : self.typesize ≤ 8) (num : Nat) (bitfield : Bool) :
    (byStrInPlace a deref self num bitfield (params w more)).writes.filter Attr.ofType ≠ [] := by
  induction w generalizing num with
  | nil => exact absurd (fun c hc => nomatch hc) hw
  | cons c w ih =>
      rw [params_cons]
      by_cases hd : c.isDigit = true
      · rw [byStrInPlace, if_pos hd]
        exact ih (mt (noTypecode_digit hd w).mpr hw) _
      · by_cases hα : c.isAlpha = true
        · obtain ⟨writes, hwrites⟩ :=
            @byStrInPlace_letter a deref c hd hα self num bitfield (params w more)
          rw [hwrites, List.filter_cons_of_pos rfl]
          exact List.cons_ne_nil _ _
        · have hcolon : c = ':' := by
            by_contra hne
            exact hw ((noTypecode_cons hd w).mpr ⟨(Bool.not_eq_true _).mp hα, hne⟩)
          rw [byStrInPlace, if_neg hd, if_neg hα, if_pos hcolon, if_neg (Nat.not_lt.mpr h8)]
          show (Attr.bitoff :: _).filter Attr.ofType ≠ []
          rw [List.filter_cons_of_pos rfl]
          exact List.cons_ne_nil _ _

end Surplus

/-- The size of an object is computed, or the processor faults. -/
theorem fillInPlace_not_raises (a : Arch) (len : Nat) (self : Mem) (type : ExcType) (msg : String) :
    (fillInPlace a len self).stop ≠ some (.raise type msg) := by
  unfold fillInPlace Mem.fillSize efiMemGetSize
  split
  · intro h
    cases h
  · next e he =>
      intro h
      cases h
      split at he
      · split at he
        · cases he
        · split at he
          · cases he
          · cases he
      · cases he

/-- A cast to a prototype, up to the text that the loop over it leaves. -/
theorem castInPlace_proto (a : Arch) (ns : Namespace) (n : Nat) (self : Mem) {r : Str}
    {specs : List Str} (hr : TypeText r) (hspecs : ∀ s ∈ specs, s ≠ [] ∧ TypeText s) :
    castInPlace a ns (n + 1) self (.str (protoText r specs)) =
      ((byStrInPlace a (nameInPlace a ns n) (self.asFunction a r specs) 0 false
        (surplus (specs.drop 10))).behind ([.typespec, .typesize, .type] ++
          (if (specs.take 10).any variadic then [.hasvarg] else []) ++ [.args])).next
            (fillInPlace a 1) := by
  have hne : r ++ '(' :: params (specs.headD []) specs.tail ≠ [] := by simp
  rw [castInPlace_str, (count_proto a r specs).1, (count_proto a r specs).2]
  unfold Mem.asFunction
  rw [protoText_params, byStrInPlace_function hne, prototype_text hr hspecs]
  rfl

/-- A prototype of more than ten arguments is refused, and nothing of it read as typecodes, exactly
when there is no typecode in front in the text of the eleventh argument, one character of it left
out. -/
theorem overlong_refused_iff (a : Arch) (ns : Namespace) (self : Mem) {r : Str} {specs : List Str}
    (hr : TypeText r) (hspecs : ∀ s ∈ specs, s ≠ [] ∧ TypeText s) (hk : 10 < specs.length) :
    Refuses a ns self r specs ↔ NoTypecode (specs.getD 10 []).tail := by
  have hdrop : specs.drop 10 = specs.getD 10 [] :: specs.drop 11 := by
    rw [List.drop_eq_getElem_cons hk, List.getD_eq_getElem?_getD, List.getElem?_eq_getElem hk]
    rfl
  have hcast := fun n => castInPlace_proto a ns n self hr hspecs
  rw [hdrop, surplus] at hcast
  constructor
  · rintro ⟨n, type, msg, self', writes, heq, -, hwrites⟩
    by_contra hread
    cases n with
    | zero => cases heq
    | succ n =>
        have h8 : (self.asFunction a r specs).typesize ≤ 8 := by
          show a.ptrSize ≤ 8
          cases a <;> decide
        have hset := @byStrInPlace_writes a (nameInPlace a ns n) _ hread (specs.drop 11) _ h8 0 false
        rw [hcast] at heq
        generalize byStrInPlace a (nameInPlace a ns n) (self.asFunction a r specs) 0 false
          (params (specs.getD 10 []).tail (specs.drop 11)) = read at heq hset
        rcases read with ⟨obj, read, stop⟩
        cases stop with
        | none =>
            -- the reader comes to the end of the text, and the cast does not raise
            have hstop := congrArg InPlace.stop heq
            exact fillInPlace_not_raises a 1 obj type msg hstop
        | some e =>
            cases heq
            have hown : List.filter Attr.ofType
                (if (specs.take 10).any variadic then [Attr.hasvarg] else []) = [] := by
              split <;> rfl
            simp only [List.filter_append, hown, List.append_nil] at hwrites
            exact hset (List.append_right_eq_self.mp hwrites)
  · intro hnone
    refine ⟨1, .valueError, "Invalid type format", self.asFunction a r specs,
      [.typespec, .typesize, .type] ++ (if (specs.take 10).any variadic then [.hasvarg] else []) ++
        [.args] ++ [], ?_, rfl, ?_⟩
    · rw [hcast 0, byStrInPlace_refuses hnone]
      rfl
    · split <;> rfl

/-- Eleven arguments. -/
def elevenSpecs (last : Str) : List Str := List.replicate 10 ['N'] ++ [last]

theorem elevenSpecs_typeText {last : Str} (h : last ≠ [] ∧ TypeText last) :
    ∀ s ∈ elevenSpecs last, s ≠ [] ∧ TypeText s := by
  intro s hs
  rcases List.mem_append.mp hs with hs | hs
  · rw [List.eq_of_mem_replicate hs]
    simp [TypeText]
  · rw [List.mem_singleton.mp hs]
    exact h

/-- An eleventh argument of one character is stepped over. -/
theorem overlong_refused_iff_byte :
    TypeText [] ∧ (∀ s ∈ elevenSpecs ['B'], s ≠ [] ∧ TypeText s) ∧
      10 < (elevenSpecs ['B']).length ∧
      Refuses .x64 noNames (blank 4096 false) [] (elevenSpecs ['B']) := by
  have hspecs := @elevenSpecs_typeText ['B'] (by simp [TypeText])
  have hr : TypeText [] := fun c hc => nomatch hc
  refine ⟨hr, hspecs, by decide, ?_⟩
  refine (overlong_refused_iff .x64 noNames (blank 4096 false) hr hspecs (by decide)).mpr ?_
  intro c hc
  cases hc

/-- Of a prototype whose eleventh argument is a pointer to a GUID comes an object that is a GUID. -/
theorem eleventh_argument_is_type :
    efiMemTypecast .x64 noNames 1 (blank 4096 false)
        (.str (protoText [] (elevenSpecs ['P', 'G']))) =
      .ok { (blank 4096 false).asFunction .x64 [] (elevenSpecs ['P', 'G']) with
        type := .guid, typesize := 16, size := 16 } ∧
      ¬ Refuses .x64 noNames (blank 4096 false) [] (elevenSpecs ['P', 'G']) := by
  have hspecs := @elevenSpecs_typeText ['P', 'G'] (by simp [TypeText])
  have hr : TypeText [] := fun c hc => nomatch hc
  have hcast : ∀ n, efiMemTypecast .x64 noNames (n + 1) (blank 4096 false)
      (.str (protoText [] (elevenSpecs ['P', 'G']))) =
      .ok { (blank 4096 false).asFunction .x64 [] (elevenSpecs ['P', 'G']) with
        type := .guid, typesize := 16, size := 16 } := by
    intro n
    have hrest : surplus ((elevenSpecs ['P', 'G']).drop 10) = ['G', ')'] := rfl
    rw [efiMemTypecast_str, efiMemTypecastByStr, (count_proto .x64 [] _).2,
      castByStr_proto hr hspecs, hrest, byStrLoop_guid]
    rfl
  refine ⟨hcast 0, ?_⟩
  rintro ⟨n, type, msg, self', writes, h, -⟩
  -- a cast that raises in place does so for its caller
  have hresult := castInPlace_result .x64 noNames n (blank 4096 false)
    (.str (protoText [] (elevenSpecs ['P', 'G'])))
  rw [h] at hresult
  cases n with
  | zero => cases h
  | succ n =>
      rw [hcast] at hresult
      cases hresult

end EfiLvgl.Uefi
