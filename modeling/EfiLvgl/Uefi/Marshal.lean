import EfiLvgl.Uefi.Call

/-!
# EfiLvgl.Uefi.Marshal — what reaches the callee

What an argument is converted to does not depend on where it is put, and it is what the callee is
to get (`conversions_carried`). So the loop is that of a buffer that is filled by groups
(`fptrLoop_eq`), and the call is sound exactly when the groups fit (`marshalled_iff`).
-/

namespace EfiLvgl.Uefi

section Marshal

variable {a : Arch} {ns : Namespace} {n : Nat} {lib : LoadLib} {memory : Nat → UInt8}

/-! ## The switch -/

theorem getUint64_ok_iff {arg : FptrArg} {v : Nat} (hmem : ∀ m, arg ≠ .mem m) :
    arg.getUint64 = .ok v ↔ ∃ i, IsInt a ns n lib memory arg i ∧ v = (i % 2 ^ 64).toNat := by
  constructor
  · intro h
    cases arg with
    | mem m => exact absurd rfl (hmem m)
    | int i =>
        cases h
        exact ⟨i, .int i, rfl⟩
    | bool b =>
        cases h
        exact ⟨_, .bool b, by cases b <;> rfl⟩
    | str isBytes data unicode => cases h
    | other typeName buffer => cases h
  · rintro ⟨i, hint, rfl⟩
    cases hint with
    | int i => rfl
    | bool b => cases b <;> rfl
    | value _ => exact absurd rfl (hmem _)
    | null _ => exact absurd rfl (hmem _)

/-- The value of an argument is the integer that it stands for. -/
theorem argValue_ok_iff {arg : FptrArg} {v : Nat} :
    argValue a ns n lib memory arg = .ok v ↔
      ∃ i, IsInt a ns n lib memory arg i ∧ v = (i % 2 ^ 64).toNat := by
  -- an object gives what it stands for, and every other argument its own integer
  by_cases hmem : ∃ m, arg = .mem m
  · obtain ⟨m, rfl⟩ := hmem
    unfold argValue
    dsimp only
    constructor
    · intro h
      cases hget : getValue a ns n lib memory m .none with
      | error e =>
          rw [hget] at h
          cases h
      | ok value =>
          rw [hget] at h
          cases value with
          | false =>
              cases h
              exact ⟨0, .null hget, rfl⟩
          | int i =>
              cases h
              exact ⟨i, .value hget, rfl⟩
          | none => cases h
          | str data => cases h
          | mem m' => cases h
    · rintro ⟨i, hint, rfl⟩
      cases hint with
      | value hget => rw [hget]; rfl
      | null hget => rw [hget]; rfl
  · rw [not_exists] at hmem
    rw [← getUint64_ok_iff hmem]
    cases arg with
    | mem m => exact absurd rfl (hmem m)
    | _ => exact Iff.rfl

theorem argValue_error {arg : FptrArg} {e : CallStop}
    (h : argValue a ns n lib memory arg = .error e) :
    e.Raised ↔ ∀ m, arg = .mem m → getValue a ns n lib memory m .none ≠ .error .fault ∧
      getValue a ns n lib memory m .none ≠ .error .fuel := by
  cases arg with
  | mem m =>
      unfold argValue at h
      dsimp only at h
      cases hget : getValue a ns n lib memory m .none with
      | ok value =>
          rw [hget] at h
          refine iff_of_true ?_ ?_
          · cases value with
            | false => cases h
            | int i => cases h
            | none => cases h; trivial
            | str data => cases h; trivial
            | mem m' => cases h; trivial
          · rintro _ ⟨⟩
            rw [hget]
            exact ⟨nofun, nofun⟩
      | error e' =>
          rw [hget] at h
          cases h
          cases e' with
          | raise type msg =>
              refine iff_of_true trivial ?_
              rintro _ ⟨⟩
              rw [hget]
              simp
          | fault => exact iff_of_false id fun hno => (hno m rfl).1 hget
          | fuel => exact iff_of_false id fun hno => (hno m rfl).2 hget
  | int i => cases h
  | bool b => cases h
  | str isBytes data unicode =>
      cases h
      exact iff_of_true trivial fun _ => nofun
  | other typeName buffer =>
      cases h
      exact iff_of_true trivial fun _ => nofun

theorem argAddress_ok_iff {arg : FptrArg} {x : Nat} :
    argAddress a memory arg = .ok x ↔ IsAddress a memory arg x := by
  constructor
  · intro h
    unfold argAddress at h
    split at h
    · rename_i m
      split at h
      -- no pointer, text or function: the address of the memory itself
      case h_4 hP hT hF =>
        cases h
        refine .object ?_
        rintro ⟨c, hc, hmem⟩
        simp only [List.mem_cons, List.not_mem_nil, or_false] at hmem
        rcases hmem with rfl | rfl | rfl
        · exact hP hc
        · exact hT hc
        · exact hF hc
      all_goals
        rename_i hc
        cases h
        exact .pointer ⟨_, hc, by decide⟩
    · cases h
      exact .int _
    · cases h
      exact .text _ _ _
    · cases h
      exact .buffer _ _
    · cases h
  · intro h
    cases h with
    | object hno =>
        rename_i m
        unfold argAddress
        dsimp only
        split
        case h_4 => rfl
        all_goals
          rename_i hc
          exact absurd ⟨_, hc, by decide⟩ hno
    | pointer hyes =>
        rcases hyes with ⟨c, hc, hmem⟩
        simp only [List.mem_cons, List.not_mem_nil, or_false] at hmem
        unfold argAddress
        rcases hmem with rfl | rfl | rfl <;> simp only [hc]
    | int i => rfl
    | text isBytes data unicode => rfl
    | buffer typeName buf => rfl

theorem argText_ok_iff {wide : Bool} {arg : FptrArg} {x : Nat} :
    argText wide arg = .ok x ↔ IsText wide arg x := by
  constructor
  · intro h
    cases arg with
    | mem m =>
        cases h
        exact .object wide m
    | str isBytes data unicode =>
        cases wide with
        | false =>
            cases h
            exact .ascii isBytes data unicode
        | true =>
            cases h
            exact .wide isBytes data unicode
    | int i => cases h
    | bool b => cases h
    | other typeName buffer => cases h
  · intro h
    cases h <;> rfl

/-- The elements of a long: two words, of which the first is the lower one, or a single word. -/
theorem longSlots_iff {v : Nat} (hv : v < 2 ^ 64) {slots : List Nat} :
    longSlots a v = slots ↔ slots.length * a.ptrSize = 8 ∧ (∀ x ∈ slots, x < a.word) ∧
      Nat.ofDigits a.word slots = v := by
  cases a with
  | ia32 =>
      show [v % 2 ^ 32, v / 2 ^ 32] = slots ↔ slots.length * 4 = 8 ∧ (∀ x ∈ slots, x < 2 ^ 32) ∧
        Nat.ofDigits (2 ^ 32) slots = v
      constructor
      · rintro rfl
        refine ⟨rfl, ?_, ?_⟩
        · simp only [List.mem_cons, List.not_mem_nil, or_false, forall_eq_or_imp, forall_eq]
          exact ⟨Nat.mod_lt _ (by decide), by omega⟩
        · simp only [Nat.ofDigits_cons, Nat.ofDigits_nil, Nat.mul_zero, Nat.add_zero]
          exact Nat.mod_add_div v (2 ^ 32)
      · -- two words below 2^32 are the remainder and the quotient
        rintro ⟨hlen, hlt, hsum⟩
        have htwo : slots.length = 2 := by omega
        rcases List.length_eq_two.mp htwo with ⟨low, high, rfl⟩
        have hlow : low < 2 ^ 32 := hlt low (by simp)
        simp only [Nat.ofDigits_cons, Nat.ofDigits_nil, Nat.mul_zero, Nat.add_zero] at hsum
        rw [← hsum, Nat.add_mul_mod_self_left, Nat.mod_eq_of_lt hlow,
          Nat.add_mul_div_left _ _ (by decide), Nat.div_eq_of_lt hlow, Nat.zero_add]
  | x64 =>
      -- the value fits in the one slot
      show [v] = slots ↔ slots.length * 8 = 8 ∧ (∀ x ∈ slots, x < 2 ^ 64) ∧
        Nat.ofDigits (2 ^ 64) slots = v
      constructor
      · rintro rfl
        exact ⟨rfl, by simpa using hv, by simp⟩
      · rintro ⟨hlen, -, hsum⟩
        have hone : slots.length = 1 := by omega
        rcases List.length_eq_one_iff.mp hone with ⟨x, rfl⟩
        rw [← hsum]
        simp

/-- The switch goes by how the arguments of a type are passed. -/
theorem argSlots_eq (t : Str) (arg : FptrArg) :
    argSlots a ns n lib memory t arg =
      match passing t with
      | .address => List.singleton <$> argAddress a memory arg
      | .text wide => List.singleton <$> argText wide arg
      | .long => longSlots a <$> argValue a ns n lib memory arg
      | .word => (fun longval => [longval % a.word]) <$> argValue a ns n lib memory arg := by
  unfold argSlots passing
  split <;> rfl

theorem map_ok_iff {α β : Type} {f : α → β} {x : Except CallStop α} {y : β} :
    f <$> x = .ok y ↔ ∃ v, x = .ok v ∧ f v = y := by
  cases x with
  | error e => exact iff_of_false (fun h => by cases h) fun ⟨v, h, _⟩ => by cases h
  | ok v =>
      constructor
      · intro h
        exact ⟨v, rfl, Except.ok.inj h⟩
      · rintro ⟨v', h, rfl⟩
        cases h
        rfl

theorem toNat_emod (i : Int) : (((i % 2 ^ 64).toNat : Nat) : Int) = i % 2 ^ 64 :=
  Int.toNat_of_nonneg (Int.emod_nonneg i (by decide))

theorem toNat_emod_lt (i : Int) : (i % 2 ^ 64).toNat < 2 ^ 64 := by
  have hlt := Int.emod_lt_of_pos i (show (0 : Int) < 2 ^ 64 by decide)
  omega

/-- A word is what is left of 64 bits. -/
theorem word_emod (i : Int) :
    (((i % 2 ^ 64).toNat % a.word : Nat) : Int) = i % a.word := by
  have hdvd : ((a.word : Nat) : Int) ∣ 2 ^ 64 := by cases a <;> decide
  rw [Int.natCast_emod, toNat_emod, Int.emod_emod_of_dvd i hdvd]

/-- The elements that the switch fills hold the argument. -/
theorem argSlots_ok_iff {t : Str} {arg : FptrArg} {slots : List Nat} :
    argSlots a ns n lib memory t arg = .ok slots ↔ Carries a ns n lib memory t arg slots := by
  rw [argSlots_eq]
  unfold Carries
  cases passing t with
  | address =>
      simp only [map_ok_iff, argAddress_ok_iff]
      exact exists_congr fun x => and_congr_right fun _ => eq_comm
  | text wide =>
      simp only [map_ok_iff, argText_ok_iff]
      exact exists_congr fun x => and_congr_right fun _ => eq_comm
  | long =>
      simp only [map_ok_iff, argValue_ok_iff]
      constructor
      · rintro ⟨v, ⟨i, hint, rfl⟩, hslots⟩
        rcases (longSlots_iff (toNat_emod_lt i)).mp hslots with ⟨hlen, hlt, hsum⟩
        exact ⟨i, hint, hlen, hlt, by rw [hsum, toNat_emod]⟩
      · rintro ⟨i, hint, hlen, hlt, hsum⟩
        refine ⟨_, ⟨i, hint, rfl⟩, (longSlots_iff (toNat_emod_lt i)).mpr ⟨hlen, hlt, ?_⟩⟩
        rw [← toNat_emod] at hsum
        exact Int.ofNat_inj.mp hsum
  | word =>
      simp only [map_ok_iff, argValue_ok_iff]
      constructor
      · rintro ⟨v, ⟨i, hint, rfl⟩, rfl⟩
        exact ⟨i, _, hint, Nat.mod_lt _ a.word_pos, word_emod i, rfl⟩
      · rintro ⟨i, x, hint, -, hx, rfl⟩
        refine ⟨_, ⟨i, hint, rfl⟩, ?_⟩
        rw [← word_emod] at hx
        rw [Int.ofNat_inj.mp hx]

/-- What the switch does not take has no value, or is refused. -/
theorem argSlots_error {t : Str} {arg : FptrArg} {e : CallStop}
    (h : argSlots a ns n lib memory t arg = .error e) :
    e.Raised ↔ ∀ m, arg = .mem m → getValue a ns n lib memory m .none ≠ .error .fault ∧
      getValue a ns n lib memory m .none ≠ .error .fuel := by
  rw [argSlots_eq] at h
  have hvalue : ∀ f : Nat → List Nat, f <$> argValue a ns n lib memory arg = .error e →
      argValue a ns n lib memory arg = .error e := by
    intro f hf
    cases hv : argValue a ns n lib memory arg with
    | error e' =>
        rw [hv] at hf
        cases hf
        rfl
    | ok v =>
        rw [hv] at hf
        cases hf
  cases hpassing : passing t with
  | address =>
      rw [hpassing] at h
      dsimp only at h
      unfold argAddress at h
      split at h
      case h_5 hmem _ _ _ =>
        cases h
        exact iff_of_true trivial fun m hm => absurd hm (hmem m)
      case h_1 => split at h <;> cases h
      all_goals cases h
  | text wide =>
      rw [hpassing] at h
      dsimp only at h
      unfold argText at h
      split at h
      case h_3 hmem =>
        cases h
        exact iff_of_true trivial fun m hm => absurd hm (hmem m)
      all_goals cases h
  | long =>
      rw [hpassing] at h
      exact argValue_error (hvalue _ h)
  | word =>
      rw [hpassing] at h
      exact argValue_error (hvalue _ h)

/-! ## The types -/

/-- Among the arguments before the one with index `i` there is a variable one. -/
def Flag (items : List (Option Str)) (i : Nat) (isVa : Bool) : Prop :=
  isVa = true ↔ ∃ k < i, VaAt items k

theorem flag_zero (items : List (Option Str)) : Flag items 0 false := by
  refine iff_of_false Bool.false_ne_true ?_
  rintro ⟨k, hk, -⟩
  exact Nat.not_lt_zero k hk

theorem flag_succ {items : List (Option Str)} {i : Nat} {isVa : Bool}
    (h : isVa = true ↔ Variadic items i) : Flag items (i + 1) isVa := by
  rw [Flag, h]
  simp only [Variadic, Nat.lt_succ_iff]

theorem prototypeType_ok_iff {items : List (Option Str)} {i : Nat} {t : Str} :
    prototypeType items i = .ok t ↔ items[i + 1]? = some (some t) := by
  unfold prototypeType
  rcases items[i + 1]? with _ | _ | t' <;> simp

theorem prototypeType_error {items : List (Option Str)} {i : Nat} {e : CallStop}
    (h : prototypeType items i = .error e) : e.Raised ↔ items[i + 1]? = some none := by
  unfold prototypeType at h
  rcases hitem : items[i + 1]? with _ | _ | t
  · rw [hitem] at h
    cases h
    exact iff_of_false id fun hno => by cases hno
  · rw [hitem] at h
    cases h
    exact iff_of_true trivial rfl
  · rw [hitem] at h
    cases h

theorem ownType_ok_iff {arg : FptrArg} {t : Str} {isVa : Bool} :
    ownType arg = .ok (t, isVa) ↔ isVa = true ∧ ∃ m, arg = .mem m ∧ m.typespec = some t := by
  cases arg with
  | mem m =>
      unfold ownType
      dsimp only
      rcases ht : m.typespec with _ | t'
      · refine iff_of_false (fun h => by cases h) ?_
        rintro ⟨-, m', ⟨⟩, ht'⟩
        rw [ht] at ht'
        cases ht'
      · constructor
        · intro h
          cases h
          exact ⟨rfl, m, rfl, ht⟩
        · rintro ⟨rfl, m', ⟨⟩, ht'⟩
          rw [ht] at ht'
          cases ht'
          rfl
  | _ =>
      refine iff_of_false (fun h => by cases h) ?_
      rintro ⟨-, m, hm, -⟩
      cases hm

/-- A variable argument that is an object can only fault. -/
theorem ownType_error {arg : FptrArg} {e : CallStop} (h : ownType arg = .error e) :
    e.Raised ↔ ∀ m, arg ≠ .mem m := by
  cases arg with
  | mem m =>
      unfold ownType at h
      dsimp only at h
      refine iff_of_false ?_ fun hno => hno m rfl
      split at h <;> cases h
      exact id
  | _ =>
      cases h
      refine iff_of_true trivial ?_
      rintro m ⟨⟩

/-- Behind a `V` the type is the object's own. -/
theorem argType_variadic {items : List (Option Str)} {i : Nat} {isVa : Bool}
    (hva : Flag items i isVa) (h : Variadic items i) (arg : FptrArg) :
    argType items i isVa arg = ownType arg := by
  unfold argType
  cases isVa with
  | true => simp only [if_true, true_or, bind, Except.bind]
  | false =>
      rcases h with ⟨k, hk, t, ht, hV⟩
      have hki : k = i := by
        rcases Nat.eq_or_lt_of_le hk with rfl | hlt
        · rfl
        · exact absurd (hva.mpr ⟨k, hlt, t, ht, hV⟩) Bool.false_ne_true
      subst hki
      rw [← prototypeType_ok_iff] at ht
      simp only [Bool.false_eq_true, if_false, ht, bind, Except.bind, false_or, hV, if_true]

/-- In front of it the type is that of the prototype. -/
theorem argType_fixed {items : List (Option Str)} {i : Nat} {isVa : Bool}
    (hva : Flag items i isVa) (h : ¬ Variadic items i) (arg : FptrArg) :
    argType items i isVa arg = (·, false) <$> prototypeType items i := by
  have hfalse : isVa = false := by
    rw [Bool.eq_false_iff]
    intro hyes
    rcases hva.mp hyes with ⟨k, hk, hV⟩
    exact h ⟨k, Nat.le_of_lt hk, hV⟩
  subst hfalse
  unfold argType
  cases ht : prototypeType items i with
  | error e => rfl
  | ok t =>
      have hno : ¬ (t.head? = some 'V' ∨ t.head? = some 'v') :=
        fun hV => h ⟨i, Nat.le_refl i, t, prototypeType_ok_iff.mp ht, hV⟩
      simp only [Bool.false_eq_true, if_false, bind, Except.bind, false_or, hno]
      rfl

theorem argType_ok_iff {items : List (Option Str)} {i : Nat} {isVa : Bool}
    (hva : Flag items i isVa) {arg : FptrArg} {t : Str} {isVa' : Bool} :
    argType items i isVa arg = .ok (t, isVa') ↔
      PassedAs items i arg t ∧ (isVa' = true ↔ Variadic items i) := by
  by_cases h : Variadic items i
  · rw [argType_variadic hva h, iff_true_right h, ownType_ok_iff, and_comm]
    refine and_congr_left fun _ => ?_
    constructor
    · rintro ⟨m, rfl, ht⟩
      exact .own h ht
    · intro hpassed
      cases hpassed with
      | fixed hno _ => exact absurd h hno
      | own _ ht => exact ⟨_, rfl, ht⟩
  · rw [argType_fixed hva h, iff_false_right h, Bool.not_eq_true, map_ok_iff]
    constructor
    · rintro ⟨t', ht, heq⟩
      cases heq
      exact ⟨.fixed h (prototypeType_ok_iff.mp ht), rfl⟩
    · rintro ⟨hpassed, rfl⟩
      cases hpassed with
      | fixed _ ht => exact ⟨t, prototypeType_ok_iff.mpr ht, rfl⟩
      | own hyes _ => exact absurd hyes h

/-- An argument with a type is not without one. -/
theorem PassedAs.typed {items : List (Option Str)} {i : Nat} {isVa : Bool} {arg : FptrArg} {t : Str}
    (hpassed : PassedAs items i arg t) (hva : Flag items i isVa) (e : CallStop) :
    argType items i isVa arg ≠ .error e := by
  intro h
  by_cases hv : Variadic items i
  · rw [(argType_ok_iff hva).mpr ⟨hpassed, iff_of_true rfl hv⟩] at h
    cases h
  · rw [(argType_ok_iff hva).mpr ⟨hpassed, iff_of_false Bool.false_ne_true hv⟩] at h
    cases h

/-- Without a type an argument is refused, or its type faults. -/
theorem argType_error {items : List (Option Str)} {i : Nat} {isVa : Bool}
    (hva : Flag items i isVa) {arg : FptrArg} {e : CallStop}
    (h : argType items i isVa arg = .error e) :
    e.Raised ↔ Refused a ns n lib memory items i arg := by
  -- among the variadic ones the object gives the type, otherwise the prototype
  by_cases hv : Variadic items i
  · rw [ownType_error ((argType_variadic hva hv arg).symm.trans h)]
    refine ⟨.noObject hv, ?_⟩
    intro hrefused
    cases hrefused with
    | noObject _ hno => exact hno
    | noType hno _ => exact absurd hv hno
    | noValue hpassed _ _ => exact absurd h (hpassed.typed hva e)
  · have herror : prototypeType items i = .error e := by
      have hmap := (argType_fixed hva hv arg).symm.trans h
      cases ht : prototypeType items i with
      | ok t =>
          rw [ht] at hmap
          cases hmap
      | error e' =>
          rw [ht] at hmap
          cases hmap
          rfl
    rw [prototypeType_error herror]
    refine ⟨.noType hv, ?_⟩
    intro hrefused
    cases hrefused with
    | noObject hyes _ => exact absurd hyes hv
    | noType _ hnone => exact hnone
    | noValue hpassed _ _ => exact absurd h (hpassed.typed hva e)

/-- An argument that has a type, but cannot be passed by it. -/
theorem refused_iff {items : List (Option Str)} {i : Nat} {arg : FptrArg} {t : Str} {e : CallStop}
    (hpassed : PassedAs items i arg t) (h : argSlots a ns n lib memory t arg = .error e) :
    e.Raised ↔ Refused a ns n lib memory items i arg := by
  have hno : ∀ slots, ¬ Carries a ns n lib memory t arg slots := by
    intro slots hcarries
    rw [argSlots_ok_iff.mpr hcarries] at h
    cases h
  rw [argSlots_error h]
  refine ⟨.noValue hpassed hno, ?_⟩
  intro hrefused
  cases hrefused with
  | noObject _ hmem => exact fun m hm => absurd hm (hmem m)
  | noType hv hnone =>
      cases hpassed with
      | fixed _ ht =>
          rw [hnone] at ht
          cases ht
      | own hyes _ => exact absurd hyes hv
  | noValue _ _ hreads => exact hreads

theorem PassedAs.unique {items : List (Option Str)} {i : Nat} {arg : FptrArg} {t t' : Str}
    (h : PassedAs items i arg t) (h' : PassedAs items i arg t') : t = t' := by
  cases h with
  | fixed hv ht =>
      cases h' with
      | fixed _ ht' => exact Option.some.inj (Option.some.inj (ht.symm.trans ht'))
      | own hv' _ => exact absurd hv' hv
  | own hv ht =>
      cases h' with
      | fixed hv' _ => exact absurd hv hv'
      | own _ ht' => exact Option.some.inj (ht.symm.trans ht')

/-- What is refused cannot be carried. -/
theorem Refused.not_carries {items : List (Option Str)} {i : Nat} {arg : FptrArg} {t : Str}
    {slots : List Nat} (h : Refused a ns n lib memory items i arg)
    (hpassed : PassedAs items i arg t) : ¬ Carries a ns n lib memory t arg slots := by
  intro hcarries
  cases h with
  | noObject hv hno =>
      cases hpassed with
      | fixed hv' _ => exact hv' hv
      | own _ _ => exact hno _ rfl
  | noType hv hnone =>
      cases hpassed with
      | fixed _ ht =>
          rw [hnone] at ht
          cases ht
      | own hv' _ => exact hv hv'
  | noValue hpassed' hno _ =>
      rw [hpassed.unique hpassed'] at hcarries
      exact hno _ hcarries

/-! ## All arguments -/

/-- What becomes of the first argument: it has no type, or it is put to its elements. -/
theorem conversions_cons {items : List (Option Str)} {i : Nat} {isVa : Bool}
    (hva : Flag items i isVa) (arg : FptrArg) (args : List FptrArg) :
    (∃ e : CallStop, conversions a ns n lib memory items i isVa (arg :: args) = [.error e] ∧
        (e.Raised ↔ Refused a ns n lib memory items i arg) ∧ ∀ t, ¬ PassedAs items i arg t) ∨
      ∃ t isVa', PassedAs items i arg t ∧ Flag items (i + 1) isVa' ∧
        conversions a ns n lib memory items i isVa (arg :: args) =
          argSlots a ns n lib memory t arg ::
            conversions a ns n lib memory items (i + 1) isVa' args := by
  cases htype : argType items i isVa arg with
  | error e =>
      exact .inl ⟨e, by rw [conversions, htype], argType_error hva htype,
        fun t hpassed => hpassed.typed hva e htype⟩
  | ok p =>
      rcases p with ⟨t, isVa'⟩
      rcases (argType_ok_iff hva).mp htype with ⟨hpassed, hflag⟩
      exact .inr ⟨t, isVa', hpassed, flag_succ hflag, by rw [conversions, htype]⟩

/-- What is converted is carried. -/
theorem conversions_carried {items : List (Option Str)} {args : List FptrArg} {i : Nat}
    {isVa : Bool} (hva : Flag items i isVa) {slots : List (List Nat)} :
    conversions a ns n lib memory items i isVa args = slots.map .ok ↔
      Carried a ns n lib memory items i args slots := by
  induction args generalizing i isVa slots with
  | nil =>
      constructor
      · intro h
        rw [List.map_eq_nil_iff.mp h.symm]
        exact .nil i
      · intro h
        cases h
        rfl
  | cons arg args ih =>
      -- the first argument has no type, or it has one and the others follow
      rcases conversions_cons hva arg args with
        ⟨e, hconv, -, hnone⟩ | ⟨t, isVa', hpassed, hflag, hconv⟩
      · rw [hconv]
        constructor
        · intro h
          rcases slots with _ | ⟨xs, slots⟩
          · cases h
          · cases (List.cons.inj h).1
        · intro h
          cases h with
          | cons hpassed _ _ => exact absurd hpassed (hnone _)
      · rw [hconv]
        constructor
        · intro h
          rcases slots with _ | ⟨xs, slots⟩
          · cases h
          · rcases List.cons.inj h with ⟨hhead, htail⟩
            exact .cons hpassed (argSlots_ok_iff.mp hhead) ((ih hflag).mp htail)
        · intro h
          cases h with
          | cons hpassed' hcarries hrest =>
              rw [hpassed'.unique hpassed] at hcarries
              rw [argSlots_ok_iff.mpr hcarries, (ih hflag).mpr hrest, List.map_cons]

/-- The first conversion that ends with an exception is that of the first argument that is
refused. -/
theorem conversions_refused {items : List (Option Str)} {args : List FptrArg} {i : Nat}
    {isVa : Bool} (hva : Flag items i isVa) {slots : List (List Nat)} :
    (∃ e rest, CallStop.Raised e ∧
        conversions a ns n lib memory items i isVa args = slots.map .ok ++ .error e :: rest) ↔
      ∃ before arg after, args = before ++ arg :: after ∧
        Carried a ns n lib memory items i before slots ∧
        Refused a ns n lib memory items (i + before.length) arg := by
  induction slots generalizing i isVa args with
  | nil =>
      constructor
      · rintro ⟨e, rest, hraised, h⟩
        rcases args with _ | ⟨arg, args⟩
        · cases h
        · -- nothing was converted before, so the first argument is the one refused
          refine ⟨[], arg, args, rfl, .nil i, ?_⟩
          rcases conversions_cons hva arg args with
            ⟨e', hconv, hiff, -⟩ | ⟨t, isVa', hpassed, hflag, hconv⟩
          · rw [hconv] at h
            cases h
            exact hiff.mp hraised
          · rw [hconv] at h
            exact (refused_iff hpassed (List.cons.inj h).1).mp hraised
      · rintro ⟨before, arg, after, rfl, hcarried, hrefused⟩
        cases hcarried
        rcases conversions_cons hva arg after with
          ⟨e, hconv, hiff, -⟩ | ⟨t, isVa', hpassed, hflag, hconv⟩
        · exact ⟨e, [], hiff.mpr hrefused, hconv⟩
        · cases hslots : argSlots a ns n lib memory t arg with
          | error e =>
              rw [hslots] at hconv
              exact ⟨e, _, (refused_iff hpassed hslots).mpr hrefused, hconv⟩
          | ok xs =>
              exact absurd (argSlots_ok_iff.mp hslots) (hrefused.not_carries hpassed)
  | cons xs slots ih =>
      constructor
      · rintro ⟨e, rest, hraised, h⟩
        rcases args with _ | ⟨arg, args⟩
        · cases h
        · rcases conversions_cons hva arg args with
            ⟨e', hconv, -, -⟩ | ⟨t, isVa', hpassed, hflag, hconv⟩
          · rw [hconv] at h
            cases (List.cons.inj h).1
          · rw [hconv] at h
            rcases List.cons.inj h with ⟨hhead, htail⟩
            rcases (ih hflag).mp ⟨e, rest, hraised, htail⟩ with
              ⟨before, arg', after, rfl, hcarried, hrefused⟩
            refine ⟨arg :: before, arg', after, rfl,
              .cons hpassed (argSlots_ok_iff.mp hhead) hcarried, ?_⟩
            rw [List.length_cons, Nat.add_comm before.length, ← Nat.add_assoc]
            exact hrefused
      · rintro ⟨before, arg', after, rfl, hcarried, hrefused⟩
        cases hcarried with
        | cons hpassed hcarries hrest =>
            rename_i arg before t
            rcases conversions_cons hva arg (before ++ arg' :: after) with
              ⟨e', -, -, hnone⟩ | ⟨t', isVa', hpassed', hflag, hconv⟩
            · exact absurd hpassed (hnone _)
            · rw [List.length_cons, Nat.add_comm before.length, ← Nat.add_assoc] at hrefused
              rcases (ih hflag).mpr ⟨before, arg', after, rfl, hrest, hrefused⟩ with
                ⟨e, rest, hraised, htail⟩
              rw [hpassed.unique hpassed'] at hcarries
              refine ⟨e, rest, hraised, ?_⟩
              rw [List.cons_append, hconv, argSlots_ok_iff.mpr hcarries, htail, List.map_cons,
                List.cons_append]

theorem allFit_iff {items : List (Option Str)} {args : List FptrArg} :
    Buffer.AllFit 12 (conversions a ns n lib memory items 0 false args) ↔
      AllFit a ns n lib memory items args := by
  unfold Buffer.AllFit AllFit
  exact exists_congr fun slots => and_congr_left fun _ => conversions_carried (flag_zero items)

theorem refusedInTime_iff {items : List (Option Str)} {args : List FptrArg} :
    (∃ e, CallStop.Raised e ∧
        Buffer.FailsInTime 12 (conversions a ns n lib memory items 0 false args) e) ↔
      RefusedInTime a ns n lib memory items args := by
  constructor
  · rintro ⟨e, hraised, slots, rest, heq, hlt⟩
    rcases (conversions_refused (flag_zero items)).mp ⟨e, rest, hraised, heq⟩ with
      ⟨before, arg, after, rfl, hcarried, hrefused⟩
    rw [Nat.zero_add] at hrefused
    exact ⟨before, arg, after, slots, rfl, hcarried, hlt, hrefused⟩
  · rintro ⟨before, arg, after, slots, rfl, hcarried, hlt, hrefused⟩
    rw [← Nat.zero_add before.length] at hrefused
    rcases (conversions_refused (flag_zero items)).mpr
      ⟨before, arg, after, rfl, hcarried, hrefused⟩ with ⟨e, rest, hraised, heq⟩
    exact ⟨e, hraised, slots, rest, heq, hlt⟩

/-! ## The array -/

/-- The loop fills the array by groups. -/
theorem fptrLoop_eq (items : List (Option Str)) (args : List FptrArg) (i : Nat) (isVa : Bool)
    (j : Nat) (arglist : Buffer Nat) :
    fptrLoop a ns n lib memory items i isVa j arglist args =
      arglist.gather 12 j (conversions a ns n lib memory items i isVa args) := by
  induction args generalizing i isVa j arglist with
  | nil => rfl
  | cons arg args ih =>
      unfold fptrLoop conversions
      cases htype : argType items i isVa arg with
      | error e => rfl
      | ok p =>
          rcases p with ⟨argtype, isVa'⟩
          cases hslots : argSlots a ns n lib memory argtype arg with
          | error e => simp only [hslots, Buffer.gather]
          | ok slots => simp only [hslots, Buffer.gather, ih]

theorem map_ne_nil {x : Except CallStop Nat} {f : Nat → List Nat} (hf : ∀ v, f v ≠ [])
    {slots : List Nat} (h : f <$> x = .ok slots) : slots ≠ [] := by
  cases x with
  | error e => cases h
  | ok v =>
      cases h
      exact hf v

/-- Every argument takes at least one element. -/
theorem argSlots_ne_nil {argtype : Str} {arg : FptrArg} {slots : List Nat}
    (h : argSlots a ns n lib memory argtype arg = .ok slots) : slots ≠ [] := by
  have hone : ∀ v : Nat, List.singleton v ≠ [] := fun v => List.cons_ne_nil v []
  have hlong : ∀ v, longSlots a v ≠ [] := by
    intro v
    unfold longSlots
    split <;> exact List.cons_ne_nil _ _
  unfold argSlots at h
  split at h
  case h_10 => exact map_ne_nil (fun v => List.cons_ne_nil _ _) h
  all_goals first
    | exact map_ne_nil hone h
    | exact map_ne_nil hlong h

theorem conversions_ne_nil {items : List (Option Str)} {args : List FptrArg} {i : Nat} {isVa : Bool}
    {slots : List Nat} (h : .ok slots ∈ conversions a ns n lib memory items i isVa args) :
    slots ≠ [] := by
  induction args generalizing i isVa with
  | nil => cases h
  | cons arg args ih =>
      unfold conversions at h
      split at h
      · simp at h
      · rcases List.mem_cons.mp h with h | h
        · exact argSlots_ne_nil h.symm
        · exact ih h

theorem mpArgCheckNum_refused {nArgs nKw expected : Nat} (h : nKw ≠ 0 ∨ nArgs ≠ expected) :
    ∃ e : CallStop, e.Raised ∧ mpArgCheckNum nArgs nKw expected = .error e := by
  unfold mpArgCheckNum
  by_cases hkw : nKw ≠ 0
  · exact ⟨typeError _, trivial, if_pos hkw⟩
  · rw [if_neg hkw, if_pos (h.resolve_left hkw)]
    exact ⟨typeError _, trivial, rfl⟩

variable (ns n lib memory)

/-- Without the prototype's number of arguments nothing is called. -/
theorem efiFptrCall_refused {self : Mem} {items : List (Option Str)} {args : List FptrArg}
    {nKw : Nat} (hself : self.fields = .args items) (h : ArityRefused a self items args nKw) :
    ∃ e : CallStop, e.Raised ∧
      efiFptrCall a ns n lib memory self args nKw = ⟨.new 12, .error e⟩ := by
  rcases mpArgCheckNum_refused h.2 with ⟨e, he, hcheck⟩
  refine ⟨e, he, ?_⟩
  unfold efiFptrCall
  simp only [hself, h.1, Bool.false_eq_true, if_false, hcheck]

/-- Otherwise the array is filled. -/
theorem efiFptrCall_accepted {self : Mem} {items : List (Option Str)} {args : List FptrArg}
    {nKw : Nat} (hself : self.fields = .args items) (h : ¬ ArityRefused a self items args nKw) :
    efiFptrCall a ns n lib memory self args nKw =
      (let r := Buffer.gather 12 (.new 12) 0 (conversions a ns n lib memory items 0 false args)
      ⟨r.1, r.2.map (dispatch r.1)⟩) := by
  unfold efiFptrCall
  by_cases hv : self.hasvarg = true
  · simp only [hself, hv, if_true, fptrLoop_eq]
  · have hcheck : mpArgCheckNum args.length nKw (a.sub items.length 1) = .ok () := by
      unfold ArityRefused at h
      rw [Bool.not_eq_true] at hv
      simp only [hv, true_and, not_or, not_not] at h
      unfold mpArgCheckNum
      rw [if_neg (not_not.mpr h.1), if_neg (not_not.mpr h.2)]
    rw [Bool.not_eq_true] at hv
    simp only [hself, hv, Bool.false_eq_true, if_false, hcheck, fptrLoop_eq]

variable {ns n lib memory}

/-- A call is sound exactly when its arguments fit, or are refused before they do not. -/
theorem marshalled_iff {self : Mem} {items : List (Option Str)} (hself : self.fields = .args items)
    (args : List FptrArg) (nKw : Nat) :
    Marshalled a ns n lib memory self items args nKw ↔
      ArityRefused a self items args nKw ∨ RefusedInTime a ns n lib memory items args ∨
        nKw = 0 ∧ AllFit a ns n lib memory items args := by
  by_cases hrefused : ArityRefused a self items args nKw
  · refine iff_of_true ?_ (.inl hrefused)
    rcases efiFptrCall_refused ns n lib memory hself hrefused with ⟨e, he, hcall⟩
    exact ⟨by rw [hcall]; rfl, .inl ⟨e, he, by rw [hcall]⟩⟩
  · rw [or_iff_right hrefused, ← refusedInTime_iff, ← allFit_iff]
    have hcall := efiFptrCall_accepted ns n lib memory hself hrefused
    have hne : ∀ slots, .ok slots ∈ conversions a ns n lib memory items 0 false args →
        slots ≠ [] := fun slots hs => conversions_ne_nil hs
    rcases Buffer.gather_new (n := 12) hne with
      ⟨slots, hall, hle, hr⟩ | ⟨xs, e, hfails, hr⟩ | ⟨⟨hnotAll, hnotFails⟩, hr⟩
    · -- every argument is converted, and together they fit
      rw [hr] at hcall
      have hcalled : (efiFptrCall a ns n lib memory self args nKw).called =
          .ok (some (slots.flatten.map some)) := by
        rw [hcall]
        show Except.ok (dispatch _ _) = _
        rw [dispatch, if_pos hle, Buffer.take_filled]
      have hcarried := (conversions_carried (flag_zero items)).mp hall
      constructor
      · intro h
        rcases h.reached with ⟨e, -, herror⟩ | ⟨hkw, -⟩
        · rw [hcalled] at herror
          cases herror
        · exact .inr ⟨hkw, slots, hall, hle⟩
      · rintro (⟨e, -, hfails⟩ | ⟨hkw, -⟩)
        · exact absurd ⟨slots, hall, hle⟩ hfails.not_allFit
        · exact ⟨by rw [hcall]; rfl, .inr ⟨hkw, slots, hcarried, hcalled⟩⟩
    · -- an argument is refused while there is room
      rw [hr] at hcall
      have hcalled : (efiFptrCall a ns n lib memory self args nKw).called = .error e := by
        rw [hcall]
        rfl
      constructor
      · intro h
        rcases h.reached with ⟨e', he', herror⟩ | ⟨-, slots, -, hok⟩
        · rw [hcalled] at herror
          cases herror
          exact .inl ⟨e, he', hfails⟩
        · rw [hcalled] at hok
          cases hok
      · rintro (⟨e', he', hfails'⟩ | ⟨-, hall⟩)
        · rw [hfails'.unique hfails] at he'
          exact ⟨by rw [hcall]; rfl, .inl ⟨e, he', hcalled⟩⟩
        · exact absurd hall hfails.not_allFit
    · -- the array is full before the arguments are used up
      refine iff_of_false ?_ ?_
      · intro h
        rcases hr with hover | ⟨xs, hlen, hr⟩
        · have hinside := h.inside
          rw [hcall, hover] at hinside
          cases hinside
        · -- what is called is called without the last arguments
          rw [hr] at hcall
          have hcalled : (efiFptrCall a ns n lib memory self args nKw).called =
              .ok (some (xs.map some)) := by
            rw [hcall]
            show Except.ok (dispatch _ _) = _
            rw [dispatch, if_pos (Nat.le_refl _), ← hlen, Buffer.take_filled]
          rcases h.reached with ⟨e, -, herror⟩ | ⟨-, slots, hcarried, hok⟩
          · rw [hcalled] at herror
            cases herror
          · rw [hcalled, Except.ok.injEq, Option.some.injEq] at hok
            have hflat := List.map_injective_iff.mpr (Option.some_injective Nat) hok
            have hall := (conversions_carried (flag_zero items)).mpr hcarried
            exact hnotAll ⟨slots, hall, by rw [← hflat, hlen]⟩
      · rintro (⟨e, -, hfails⟩ | ⟨-, hall⟩)
        · exact hnotFails e hfails
        · exact hnotAll hall

end Marshal

/-! ## Examples -/

/-- A function with a prototype. -/
def fptrObj (items : List (Option Str)) (hasvarg : Bool) : Mem :=
  { blank 4096 false with type := .fptr, fields := .args items, hasvarg := hasvarg }

/-- Libraries that are not called. -/
def idleLib : LoadLib := ⟨fun _ _ _ _ => 0, id⟩

/-- A word at 8192, and a pointer at 8200. -/
def someMemory : Nat → UInt8 := fun addr => if addr = 8192 then 7 else if addr = 8201 then 32 else 0

/-- A long, a pointer, a text as it is and one that is converted, and whatever comes behind. -/
def someTypes : List (Option Str) :=
  [none, some ['Q'], some ['P'], some ['a'], some ['u'], some ['V']]

def someArgs : List FptrArg :=
  [.int (2 ^ 32 + 5), .mem { blank 8200 false with typespec := some ['P', '#', 'B'] },
    .str false 16 32, .str false 48 64,
    .mem { blank 8192 false with typespec := some ['H'], typesize := 2 }]

/-- On IA32 the long takes two elements; the pointer is followed, and the last object is read. -/
theorem marshalled_types :
    (efiFptrCall .ia32 noNames 0 idleLib someMemory (fptrObj someTypes true) someArgs 0).called =
        .ok (some [some 5, some 1, some 8192, some 16, some 64, some 7]) ∧
      Marshalled .ia32 noNames 0 idleLib someMemory (fptrObj someTypes true) someTypes someArgs
        0 := by
  refine ⟨by rfl, (marshalled_iff rfl _ 0).mpr (.inr (.inr ⟨rfl, ?_⟩))⟩
  exact allFit_iff.mp ⟨[[5, 1], [8192], [16], [64], [7]], by rfl, by decide⟩

/-- Thirteen variable arguments; and, where a long takes two elements, six of them behind a
number. -/
theorem thirteenth_argument_dropped :
    (efiFptrCall .x64 noNames 0 idleLib (fun _ => 0) (fptrObj [none, some ['V']] true)
        ((List.range 13).map fun i => .mem { blank (4096 + i) false with typespec := some ['a'] })
        0).called = .ok (some ((List.range 12).map fun i => some (4096 + i))) ∧
      (efiFptrCall .ia32 noNames 0 idleLib (fun _ => 0)
        (fptrObj (none :: some ['N'] :: List.replicate 6 (some ['Q'])) false)
        (List.replicate 7 (.int 1)) 0).arglist.overrun = true ∧
      (efiFptrCall .ia32 noNames 0 idleLib (fun _ => 0)
        (fptrObj (none :: some ['N'] :: List.replicate 6 (some ['Q'])) false)
        (List.replicate 7 (.int 1)) 0).called = .ok none := by
  refine ⟨rfl, rfl, rfl⟩

end EfiLvgl.Uefi
