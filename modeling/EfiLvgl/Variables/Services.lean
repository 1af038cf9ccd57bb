import EfiLvgl.Variables.Objects

/-!
# EfiLvgl.Variables.Services — the services as scripts see them

What a call of a variable service comes to, for the objects that `uefi.py` makes: the firmware
finds the name and the GUID that the script has stored, and the script the size and the data
that the firmware has stored.
-/

namespace EfiLvgl.Variables

open EfiLvgl.Uefi

section Services

variable {a : Arch} {env : Env a}

/-! ## Keys in memory -/

/-- The key that a script has stored. -/
theorem keyAt_of_holds {heap : Heap a.word} {b c : Block} {k : VarKey} {rest : List UInt8}
    (hname : heap.Holds b (unicodeBytes k.name ++ rest)) (hs : ∀ u ∈ k.name, u ≠ 0)
    (hguid : heap.Holds c k.guid) (hc : c.len = 16) :
    keyAt a heap.ram.byte b.addr c.addr = k := by
  have hlen := length_le_of_holds hname
  have hle := (heap.proper _ hname.1).le
  unfold keyAt
  rw [strAt_of_holds hname hs (by omega)]
  have hbytes : (List.range 16).map (fun i => heap.ram.byte (c.addr + i)) = k.guid := by
    rw [← hguid.2, hc]
    rfl
  rw [hbytes]

/-! ## Statuses -/

/-- The text of an `efistatus` exception. -/
def statusMsg : EfiStatus → Str
  | .bufferTooSmall =>
      ['B', 'U', 'F', 'F', 'E', 'R', '_', 'T', 'O', 'O', '_', 'S', 'M', 'A', 'L', 'L', ' ', '(', '5',
        ')']
  | .notFound => ['N', 'O', 'T', '_', 'F', 'O', 'U', 'N', 'D', ' ', '(', '1', '4', ')']
  | _ => []

theorem wp_raise_success {w : World a} {Q : Unit → World a → Prop} {E : Exc → World a → Prop}
    (hok : Q () w) : Wp (raiseOnError a (statusCode a .success)) w Q E := by
  refine wp_ok ?_ hok
  cases a <;> rfl

theorem wp_raise {w : World a} {st : EfiStatus} {Q : Unit → World a → Prop}
    {E : Exc → World a → Prop} (hst : st = .bufferTooSmall ∨ st = .notFound)
    (herr : E (.efistatus (statusMsg st)) w) : Wp (raiseOnError a (statusCode a st)) w Q E := by
  refine wp_error ?_ herr
  rcases hst with rfl | rfl
  all_goals cases a <;> rfl

/-! ## Calls -/

/-- Where `null` points to, and what is there. -/
def nullBlock (env : Env a) : Block := ⟨env.nullPtr, a.ptrSize⟩

/-- `null` is a pointer, and is followed. -/
theorem callArg_null {w : World a} (hnull : w.heap.Holds (nullBlock env) (wordBytes a 0)) :
    callArg env ['P'] (.mem (nullObj env)) w = .ok 0 w := by
  have hread : readUnit w.heap.ram.byte env.nullPtr a.ptrSize = 0 := readUnit_word a.word_pos hnull
  show look (fun memory => .ok (readUnit memory env.nullPtr a.ptrSize)) w = _
  show (pure (readUnit w.heap.ram.byte env.nullPtr a.ptrSize) : Op a Nat) w = _
  rw [hread]
  rfl

theorem callArgs_nil {w : World a} : callArgs env [] [] w = .ok [] w := rfl

theorem callArgs_cons {w : World a} {t : Str} {types : List (Option Str)} {arg : CallArg}
    {args : List CallArg} {x : Nat} {xs : List Nat} (h : callArg env t arg w = .ok x w)
    (hs : callArgs env types args w = .ok xs w) :
    callArgs env (some t :: types) (arg :: args) w = .ok (x :: xs) w := by
  unfold callArgs
  rw [bind_apply_ok h, bind_apply_ok hs]
  rfl

/-- A call whose arguments are addresses and numbers. -/
theorem wp_efiFptrCall {w : World a} {typespec : Str} {types : List (Option Str)}
    {func : List Nat → Op a EfiStatus} {args : List CallArg} {arglist : List Nat}
    {Q : Unit → World a → Prop} {E : Exc → World a → Prop}
    (htypes : (prototype [] false [] typespec.tail).1 = some ['E'] :: types)
    (hlen : args.length = types.length) (hargs : callArgs env types args w = .ok arglist w)
    (h : Wp (func arglist) w (fun st w' => Wp (raiseOnError a (statusCode a st)) w' Q E) E) :
    Wp (efiFptrCall env typespec func args) w Q E := by
  unfold efiFptrCall
  rw [htypes]
  dsimp only
  rw [if_neg (by rw [hlen]; simp)]
  refine wp_bind (wp_ok hargs ?_)
  exact wp_bind h

/-- `rt.GetVariable` calls the service with the addresses of its objects. -/
theorem wp_rtGetVariable {w : World a} {pn n pg ps pd : Nat} {data : Mem}
    {Q : Unit → World a → Prop} {E : Exc → World a → Prop}
    (hnull : w.heap.Holds (nullBlock env) (wordBytes a 0))
    (hdata : callArg env ['P'] (.mem data) w = .ok pd w)
    (h : Wp (getVariable pn pg ps pd) w
      (fun st w' => Wp (raiseOnError a (statusCode a st)) w' Q E) E) :
    Wp (rtGetVariable env (arrayObj a 'u' pn n) (efiGuidNew pg) (arrayObj a 'N' ps 1) data) w
      Q E := by
  have hattributes : callArg env ['P', 'I'] (.mem (nullObj env)) w = .ok 0 w := callArg_null hnull
  have hargs : callArgs env
      [some ['u'], some ['P', 'G'], some ['P', 'I'], some ['P', 'N'], some ['P']]
      [.mem (arrayObj a 'u' pn n), .mem (efiGuidNew pg), .mem (nullObj env),
        .mem (arrayObj a 'N' ps 1), .mem data] w = .ok [pn, pg, 0, ps, pd] w :=
    callArgs_cons rfl (callArgs_cons rfl (callArgs_cons hattributes (callArgs_cons rfl
      (callArgs_cons hdata callArgs_nil))))
  exact wp_efiFptrCall (by decide) rfl hargs h

/-- `rt.SetVariable` calls the service with the addresses of its objects. -/
theorem wp_rtSetVariable {w : World a} {pn n pg attributes size pd : Nat} {data : Mem}
    {Q : Unit → World a → Prop} {E : Exc → World a → Prop} (hattributes : attributes < a.word)
    (hsize : size < a.word) (hdata : callArg env ['P'] (.mem data) w = .ok pd w)
    (h : Wp (setVariable pn pg attributes size pd) w
      (fun st w' => Wp (raiseOnError a (statusCode a st)) w' Q E) E) :
    Wp (rtSetVariable env (arrayObj a 'u' pn n) (efiGuidNew pg) attributes size data) w Q E := by
  have hint : ∀ x : Nat, x < a.word → ((x : Int) % a.word).toNat = x := by
    intro x hx
    rw [Int.emod_eq_of_lt (by omega) (by omega), Int.toNat_natCast]
  have hL : callArg env ['L'] (.int attributes) w = .ok attributes w := by
    show (pure ((attributes : Int) % a.word).toNat : Op a Nat) w = _
    rw [hint _ hattributes]
    rfl
  have hN : callArg env ['N'] (.int size) w = .ok size w := by
    show (pure ((size : Int) % a.word).toNat : Op a Nat) w = _
    rw [hint _ hsize]
    rfl
  have hargs : callArgs env [some ['u'], some ['P', 'G'], some ['L'], some ['N'], some ['P']]
      [.mem (arrayObj a 'u' pn n), .mem (efiGuidNew pg), .int attributes, .int size, .mem data] w =
        .ok [pn, pg, attributes, size, pd] w :=
    callArgs_cons rfl (callArgs_cons rfl (callArgs_cons hL (callArgs_cons hN
      (callArgs_cons hdata callArgs_nil))))
  exact wp_efiFptrCall (by decide) rfl hargs h

/-- `rt.GetNextVariableName` calls the service with the addresses of its objects. -/
theorem wp_rtGetNextVariableName {w : World a} {pn n pg ps : Nat} {Q : Unit → World a → Prop}
    {E : Exc → World a → Prop}
    (h : Wp (getNextVariableName ps pn pg) w
      (fun st w' => Wp (raiseOnError a (statusCode a st)) w' Q E) E) :
    Wp (rtGetNextVariableName env (arrayObj a 'N' ps 1) (arrayObj a 'u' pn n) (efiGuidNew pg)) w
      Q E := by
  have hargs : callArgs env [some ['P', 'N'], some ['u'], some ['P', 'G']]
      [.mem (arrayObj a 'N' ps 1), .mem (arrayObj a 'u' pn n), .mem (efiGuidNew pg)] w =
        .ok [ps, pn, pg] w :=
    callArgs_cons rfl (callArgs_cons rfl (callArgs_cons rfl callArgs_nil))
  exact wp_efiFptrCall (by decide) rfl hargs h

/-! ## What the services do -/

/-- The blocks of a key that a script has stored. -/
def keyBlocks (a : Arch) (pn n pg : Nat) (k : VarKey) (rest : List UInt8) :
    List (Block × List UInt8) :=
  [(⟨pg, 16⟩, k.guid), (arrayBlock a 'u' pn n, unicodeBytes k.name ++ rest)]

section Effects

variable {w : World a} {pn n pg ps pd : Nat} {k : VarKey} {rest : List UInt8}
  {l : List (Block × List UInt8)} {Q : EfiStatus → World a → Prop} {E : Exc → World a → Prop}

theorem keyAt_of_owns (hown : w.heap.Owns l) (hsub : keyBlocks a pn n pg k rest ⊆ l)
    (hs : ∀ u ∈ k.name, u ≠ 0) : keyAt a w.heap.ram.byte pn pg = k ∧ 0 < pn ∧ 0 < pg := by
  have hguid : w.heap.Holds ⟨pg, 16⟩ k.guid :=
    hown.holds (⟨pg, 16⟩, k.guid) (hsub (by simp [keyBlocks]))
  have hname : w.heap.Holds (arrayBlock a 'u' pn n) (unicodeBytes k.name ++ rest) :=
    hown.holds (arrayBlock a 'u' pn n, unicodeBytes k.name ++ rest) (hsub (by simp [keyBlocks]))
  refine ⟨keyAt_of_holds hname hs hguid rfl, (w.heap.proper _ hname.1).addr_pos,
    (w.heap.proper _ hguid.1).addr_pos⟩

/-- Without room for data, the service answers with the size of the data. -/
theorem wp_getVariable_size
    (hown : w.heap.Owns ((arrayBlock a 'N' ps 1, wordBytes a 0) :: (keyBlocks a pn n pg k rest ++ l)))
    (hs : ∀ u ∈ k.name, u ≠ 0) (hdata : ∀ v ∈ w.vars, 0 < v.data.length)
    (hmissing : lookup w.vars k = none → Q .notFound w)
    (hfound : ∀ v heap, lookup w.vars k = some v →
      heap.Owns ((arrayBlock a 'N' ps 1, wordBytes a v.data.length) ::
        (keyBlocks a pn n pg k rest ++ l)) → Q .bufferTooSmall { w with heap := heap }) :
    Wp (getVariable pn pg ps pd) w Q E := by
  rcases keyAt_of_owns hown
    (List.subset_cons_of_subset _ (List.subset_append_left _ _)) hs with ⟨hkey, hpn, hpg⟩
  have hsize := hown.holds _ List.mem_cons_self
  have hps : 0 < ps := (w.heap.proper _ hsize.1).addr_pos
  have hread : readUnit w.heap.ram.byte ps a.ptrSize = 0 := readUnit_word a.word_pos hsize
  unfold getVariable
  refine wp_bind (wp_get ?_)
  dsimp only
  rw [if_neg (by omega), hkey, hread]
  cases hlookup : lookup w.vars k with
  | none => exact wp_pure (hmissing hlookup)
  | some v =>
      dsimp only
      rw [if_pos (hdata v (List.mem_of_find?_eq_some hlookup))]
      refine wp_bind (wp_ok rfl (wp_pure (hfound v _ hlookup ?_)))
      exact hown.fill_head (Heap.fills_write_all a.word_pos hsize (length_wordBytes _))

/-- With room for data, the service answers with the data. -/
theorem wp_getVariable_data {v : Variable} {old : List UInt8}
    (hown : w.heap.Owns ((arrayBlock a 'B' pd v.data.length, old) ::
      (arrayBlock a 'N' ps 1, wordBytes a v.data.length) :: (keyBlocks a pn n pg k rest ++ l)))
    (hs : ∀ u ∈ k.name, u ≠ 0) (hlt : v.data.length < a.word) (hlookup : lookup w.vars k = some v)
    (hok : ∀ heap, heap.Owns ((arrayBlock a 'B' pd v.data.length, v.data) ::
      (arrayBlock a 'N' ps 1, wordBytes a v.data.length) :: (keyBlocks a pn n pg k rest ++ l)) →
      Q .success { w with heap := heap }) : Wp (getVariable pn pg ps pd) w Q E := by
  rcases keyAt_of_owns hown
    (List.subset_cons_of_subset _ (List.subset_cons_of_subset _ (List.subset_append_left _ _)))
    hs with ⟨hkey, hpn, hpg⟩
  have hsize : w.heap.Holds (arrayBlock a 'N' ps 1) (wordBytes a v.data.length) :=
    hown.holds (arrayBlock a 'N' ps 1, wordBytes a v.data.length) (by simp)
  have hold := hown.holds _ List.mem_cons_self
  have hps : 0 < ps := (w.heap.proper _ hsize.1).addr_pos
  have hpd : 0 < pd := (w.heap.proper _ hold.1).addr_pos
  have hread : readUnit w.heap.ram.byte ps a.ptrSize = v.data.length := readUnit_word hlt hsize
  have hone : typeSize a 'B' * v.data.length = v.data.length := Nat.one_mul _
  unfold getVariable
  refine wp_bind (wp_get ?_)
  dsimp only
  rw [if_neg (by omega), hkey, hread, hlookup]
  dsimp only
  rw [if_neg (Nat.lt_irrefl _), if_neg (by omega)]
  -- the data is written first, and its size after it
  have hown' := hown.fill_head (Heap.fills_write_all a.word_pos hold hone.symm)
  refine wp_bind (wp_ok rfl (wp_bind (wp_ok rfl (wp_pure (hok _ ?_)))))
  have hsize' := hown'.holds (arrayBlock a 'N' ps 1, wordBytes a v.data.length) (by simp)
  exact hown'.fill_second (Heap.fills_write_all a.word_pos hsize' (length_wordBytes _))

/-- What `SetVariable` asks for: a name that is not empty, and a GUID. -/
theorem valid_name {name : List UInt16} (hpn : 0 < pn) (hpg : 0 < pg) (hne : name ≠ []) :
    ¬ (pn = 0 ∨ pg = 0 ∨ name = []) := by
  rintro (h | h | h)
  · omega
  · omega
  · exact hne h

/-- With data and attributes, the service sets the variable. -/
theorem wp_setVariable {attributes : Nat} {data : List UInt8}
    (hown : w.heap.Owns ((arrayBlock a 'B' pd data.length, data) ::
      (keyBlocks a pn n pg k rest ++ l)))
    (hs : ∀ u ∈ k.name, u ≠ 0) (hne : k.name ≠ []) (hattributes : attributes ≠ 0)
    (hdata : data ≠ []) (hok : Q .success { w with vars := insert w.vars k data }) :
    Wp (setVariable pn pg attributes data.length pd) w Q E := by
  rcases keyAt_of_owns hown
    (List.subset_cons_of_subset _ (List.subset_append_left _ _)) hs with ⟨hkey, hpn, hpg⟩
  have hold := hown.holds _ List.mem_cons_self
  have hpd : 0 < pd := (w.heap.proper _ hold.1).addr_pos
  have hlen := List.length_pos_of_ne_nil hdata
  have hread : w.heap.ram.read pd data.length = data := by
    have hread := hold.2
    dsimp only [arrayBlock] at hread
    rw [show typeSize a 'B' = 1 from rfl, Nat.one_mul] at hread
    exact hread
  have hvalid := valid_name hpn hpg hne
  unfold setVariable
  refine wp_bind (wp_get ?_)
  dsimp only
  rw [hkey, if_neg hvalid, if_neg (by omega), if_neg (by omega), hread]
  exact wp_bind (wp_set (wp_pure hok))

/-- Without data, the service deletes the variable. -/
theorem wp_setVariable_delete {attributes : Nat}
    (hown : w.heap.Owns (keyBlocks a pn n pg k rest ++ l)) (hs : ∀ u ∈ k.name, u ≠ 0)
    (hne : k.name ≠ []) (hmissing : lookup w.vars k = none → Q .notFound w)
    (hfound : lookup w.vars k ≠ none → Q .success { w with vars := erase w.vars k }) :
    Wp (setVariable pn pg attributes 0 pd) w Q E := by
  rcases keyAt_of_owns hown (List.subset_append_left _ _) hs with ⟨hkey, hpn, hpg⟩
  have hvalid := valid_name hpn hpg hne
  unfold setVariable
  refine wp_bind (wp_get ?_)
  dsimp only
  rw [hkey, if_neg hvalid, if_pos (.inl rfl)]
  cases hlookup : lookup w.vars k with
  | none => exact wp_pure (hmissing hlookup)
  | some v =>
      have hsome : lookup w.vars k ≠ none := by
        rw [hlookup]
        exact Option.some_ne_none v
      exact wp_bind (wp_set (wp_pure (hfound hsome)))

/-- The service answers with the variable behind the one that is named, when its name fits, and
else only with the size of it. -/
theorem wp_getNextVariableName {size : Nat} {vars : List Variable}
    (hown : w.heap.Owns ((arrayBlock a 'N' ps 1, wordBytes a size) ::
      (keyBlocks a pn n pg k rest ++ l)))
    (hs : ∀ u ∈ k.name, u ≠ 0) (hknown : k.name ≠ [] → lookup w.vars k ≠ none)
    (hlt : size < a.word) (hroom : size ≤ 2 * n)
    (hvars : (if k.name = [] then w.vars else following k w.vars) = vars)
    (hguids : ∀ v ∈ vars, v.guid.length = 16) (hend : vars = [] → Q .notFound w)
    (hlong : ∀ v vs heap, vars = v :: vs → size < (v.name.length + 1) * 2 →
      heap.Owns ((arrayBlock a 'N' ps 1, wordBytes a ((v.name.length + 1) * 2 : Nat)) ::
        (keyBlocks a pn n pg k rest ++ l)) → Q .bufferTooSmall { w with heap := heap })
    (hnext : ∀ v vs rest' heap, vars = v :: vs → (v.name.length + 1) * 2 ≤ size →
      heap.Owns ((arrayBlock a 'N' ps 1, wordBytes a ((v.name.length + 1) * 2 : Nat)) ::
        (keyBlocks a pn n pg v.key rest' ++ l)) → Q .success { w with heap := heap }) :
    Wp (getNextVariableName ps pn pg) w Q E := by
  rcases keyAt_of_owns hown
    (List.subset_cons_of_subset _ (List.subset_append_left _ _)) hs with ⟨hkey, hpn, hpg⟩
  have hsize := hown.holds _ List.mem_cons_self
  have hps : 0 < ps := (w.heap.proper _ hsize.1).addr_pos
  have hread : readUnit w.heap.ram.byte ps a.ptrSize = size := readUnit_word hlt hsize
  have hfound : ¬ (k.name ≠ [] ∧ lookup w.vars k = none) := fun h => hknown h.1 h.2
  unfold getNextVariableName
  refine wp_bind (wp_get ?_)
  dsimp only
  rw [if_neg (by omega), hkey, if_neg hfound, hvars, hread]
  cases vars with
  | nil => exact wp_pure (hend rfl)
  | cons v vs =>
      dsimp only
      by_cases hfit : size < (v.name.length + 1) * 2
      · rw [if_pos hfit]
        refine wp_bind (wp_ok rfl (wp_pure (hlong v vs _ rfl hfit ?_)))
        exact hown.fill_head (Heap.fills_write_all a.word_pos hsize (length_wordBytes _))
      · rw [if_neg hfit]
        -- the name goes to the start of its buffer, and then the GUID and the size to theirs
        have hname : w.heap.Holds (arrayBlock a 'u' pn n) (unicodeBytes k.name ++ rest) :=
          hown.holds (arrayBlock a 'u' pn n, unicodeBytes k.name ++ rest) (by simp [keyBlocks])
        have hlen : (unicodeBytes v.name).length ≤ 2 * n := by
          rw [length_unicodeBytes]
          omega
        have hown₁ := hown.fill_third (Heap.fills_write_start a.word_pos hname hlen)
        have hguid := hown₁.holds (⟨pg, 16⟩, k.guid) (by simp)
        have hown₂ := hown₁.fill_second (Heap.fills_write_all a.word_pos hguid
          (hguids v List.mem_cons_self))
        have hsize₂ := hown₂.holds _ List.mem_cons_self
        have hown₃ := hown₂.fill_head (Heap.fills_write_all a.word_pos hsize₂
          (length_wordBytes ((v.name.length + 1) * 2)))
        exact wp_bind (wp_ok rfl (wp_bind (wp_ok rfl (wp_bind (wp_ok rfl
          (wp_pure (hnext v vs _ _ rfl (by omega) hown₃)))))))

end Effects

end Services

end EfiLvgl.Variables
