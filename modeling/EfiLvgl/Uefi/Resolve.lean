import EfiLvgl.Lib.Fuel
import EfiLvgl.Uefi.Relocate
import Mathlib.Order.WellFounded

/-!
# EfiLvgl.Uefi.Resolve — where the reading of descriptions ends

A name that leads to itself is followed for ever: nothing remembers the names that were met.
`Refers` is the step from a name to the next one, through an alias or through a field that is
stored by value. Reading a description ends wherever these steps do (`reading_ends`).
-/

namespace EfiLvgl.Uefi

open Fuel

/-! ## Two readers side by side -/

/-- A relation between objects that the reader of typecodes keeps. -/
structure KeptByReader (R : Mem → Mem → Prop) : Prop where
  typesize : ∀ {m m'}, R m m' → m.typesize = m'.typesize
  setTypesize : ∀ {m m'} (x : Nat), R m m' → R { m with typesize := x } { m' with typesize := x }
  setType : ∀ {m m'} (type : ObjType), R m m' → R { m with type := type } { m' with type := type }
  setArgs : ∀ {m m'} (items : List (Option Str)) (v : Bool), R m m' →
    R { m with fields := .args items, hasvarg := m.hasvarg || v }
      { m' with fields := .args items, hasvarg := m'.hasvarg || v }
  setBitoff : ∀ {m m'} (x : Nat), R m m' → R { m with bitoff := x } { m' with bitoff := x }
  setBitnum : ∀ {m m'} (x : Nat), R m m' → R { m with bitnum := x } { m' with bitnum := x }

theorem KeptByReader.finish {R : Mem → Mem → Prop} (hR : KeptByReader R) {m m' : Mem}
    (h : R m m') (num : Nat) (bitfield : Bool) :
    R (finish m num bitfield) (finish m' num bitfield) := by
  unfold Uefi.finish
  split
  · exact hR.setBitnum _ h
  · exact h

/-- Equal objects stay equal. -/
theorem keptByReader_eq : KeptByReader (· = ·) where
  typesize := by rintro m _ rfl; rfl
  setTypesize := by rintro m _ x rfl; rfl
  setType := by rintro m _ type rfl; rfl
  setArgs := by rintro m _ items v rfl; rfl
  setBitoff := by rintro m _ x rfl; rfl
  setBitnum := by rintro m _ x rfl; rfl

/-- Two readers of one text do the same up to the name that they come to. -/
theorem byStrLoop_related {a : Arch} {deref deref' : Mem → Str → Res Mem} {R : Mem → Mem → Prop}
    {S : Res Mem → Res Mem → Prop} (hR : KeptByReader R) (hok : ∀ m m', R m m' → S (.ok m) (.ok m'))
    (herror : ∀ e, S (.error e) (.error e))
    (hderef : ∀ m m' name bitfield, R m m' → m.typesize = 0 →
      S (deref m name >>= fun g => .ok (finish g 0 bitfield))
        (deref' m' name >>= fun g => .ok (finish g 0 bitfield)))
    {self self' : Mem} (h : R self self') (num : Nat) (bitfield : Bool) (text : Str) :
    S (byStrLoop a deref self num bitfield text) (byStrLoop a deref' self' num bitfield text) := by
  fun_induction byStrLoop a deref self num bitfield text generalizing self' with
  | case1 self num bitfield =>
      rw [byStrLoop_nil]
      exact hok _ _ (hR.finish h _ _)
  | case2 self num bitfield c rest hc ih =>
      rw [byStrLoop_digit _ _ _ _ hc]
      exact ih h
  | case3 self num bitfield rest hr =>
      rw [byStrLoop_object_bare _ _ _ _ hr]
      exact herror _
  | case4 self num bitfield rest hr =>
      rw [byStrLoop_object _ _ _ _ (not_not.mp hr)]
      -- a name is the only place where the two readers differ
      exact hderef _ _ _ _ (hR.setTypesize 0 h) rfl
  | case5 self num bitfield =>
      rw [byStrLoop_function_nil]
      exact hok _ _ (hR.finish (hR.setType _ (hR.setTypesize _ h)) _ _)
  | case6 self num bitfield rest hr =>
      rename_i ih
      rw [byStrLoop_function _ _ _ _ hr]
      exact ih (hR.setArgs _ _ (hR.setType _ (hR.setTypesize _ h)))
  | case7 self num bitfield c rest =>
      rename_i hc
      rw [byStrLoop_pointer _ _ _ _ hc]
      rcases hc with rfl | rfl <;> exact hok _ _ (hR.finish (hR.setTypesize _ h) _ _)
  | case8 self num bitfield rest =>
      rw [byStrLoop_guid]
      exact hok _ _ (hR.finish (hR.setType _ (hR.setTypesize _ h)) _ _)
  | case9 self num bitfield c rest hc hα _ hO hF hP =>
      rename_i hG ih
      rw [byStrLoop_letter _ _ _ _ hc hα hO hF hP hG]
      exact ih (hR.setTypesize _ h)
  | case10 self num bitfield rest hwide =>
      rw [byStrLoop_colon_wide _ _ _ _ (hR.typesize h ▸ hwide)]
      exact herror _
  | case11 self num bitfield rest hwide _ _ ih =>
      rw [byStrLoop_colon _ _ _ _ (hR.typesize h ▸ Nat.not_lt.mp hwide)]
      exact ih (hR.setBitoff _ h)
  | case12 self num bitfield c rest hc hα hcolon =>
      rw [byStrLoop_invalid _ _ _ _ hc hα hcolon]
      exact herror _

/-! ## More fuel -/

/-- Results that only lack fuel. -/
def DerefBelow (deref deref' : Mem → Str → Res Mem) : Prop :=
  ∀ m name, Below .fuel (deref m name) (deref' m name)

section Below

variable {a : Arch} {deref deref' : Mem → Str → Res Mem} (hd : DerefBelow deref deref')

include hd

theorem castByStr_below (self : Mem) (t : Str) :
    Below .fuel (castByStr a deref self t) (castByStr a deref' self t) := by
  refine byStrLoop_related keptByReader_eq ?_ (fun e => Below.refl _) ?_ rfl 0 false t
  · rintro m _ rfl
    exact Below.refl _
  · rintro m _ name bitfield rfl -
    exact (hd m name).bind fun _ => Below.refl _

theorem newBySpec_below (buf : Nat) (t : Str) (readonly pmem : Bool) :
    Below .fuel (newBySpec a deref buf t readonly pmem) (newBySpec a deref' buf t readonly pmem) :=
  (castByStr_below hd _ _).bind fun _ => Below.refl _

theorem byDictLoop_below (readonly page : Bool) (last : Option Mem) (addr : Nat)
    (entries : List (Str × SpecObj)) :
    Below .fuel (byDictLoop a deref readonly page last addr entries)
      (byDictLoop a deref' readonly page last addr entries) := by
  induction entries generalizing last addr with
  | nil => exact Below.refl _
  | cons e rest ih =>
      rcases e with ⟨key, value⟩
      rw [byDictLoop, byDictLoop]
      refine (Below.refl _).bind fun t => ?_
      refine (newBySpec_below hd addr t readonly page).bind fun field => ?_
      refine (Below.refl _).bind fun size => ?_
      exact (ih _ _).bind fun _ => Below.refl _

theorem castByDict_below (self : Mem) (entries : List (Str × SpecObj)) :
    Below .fuel (castByDict a deref self entries) (castByDict a deref' self entries) :=
  (byDictLoop_below hd _ _ _ _ _).bind fun _ => Below.refl _

end Below

section Grows

variable (a : Arch) (ns : Namespace)

variable {ns} in
/-- One alias. -/
theorem resolveTypeByName_name (n : Nat) (d : TypeDesc) (name : Str) :
    resolveTypeByName ns (n + 1) d ('#' :: name) =
      (loadObjByNamespace ns none [] name >>= fun o =>
        match ns.desc o with
        | .str s => resolveTypeByName ns n (.str s) s
        | d => .ok d) := rfl

variable {ns} in
/-- A text that is no name ends the chain. -/
theorem resolveTypeByName_text (n : Nat) (d : TypeDesc) {s : Str} (hs : s.head? ≠ some '#') :
    resolveTypeByName ns (n + 1) d s = .ok d := by
  unfold resolveTypeByName
  split
  · exact absurd rfl hs
  · rfl

variable {ns} in
/-- What a name is resolved from does not matter. -/
theorem resolveTypeByName_start (n : Nat) (d d' : TypeDesc) {s : Str} (hs : s.head? = some '#') :
    resolveTypeByName ns n d s = resolveTypeByName ns n d' s := by
  obtain ⟨x, rfl⟩ : ∃ x, s = '#' :: x := ⟨s.tail, (List.cons_head?_tail hs).symm⟩
  cases n with
  | zero => rfl
  | succ n => rw [resolveTypeByName_name, resolveTypeByName_name]

theorem resolve_grows (d : TypeDesc) (name : Str) :
    Grows .fuel fun n => resolveTypeByName ns n d name := by
  intro n
  induction n generalizing d name with
  | zero => exact Or.inl rfl
  | succ n ih =>
      by_cases hs : name.head? = some '#'
      · obtain ⟨x, rfl⟩ : ∃ x, name = '#' :: x := ⟨name.tail, (List.cons_head?_tail hs).symm⟩
        dsimp only
        rw [resolveTypeByName_name, resolveTypeByName_name]
        refine (Below.refl _).bind fun o => ?_
        split
        · exact ih _ _
        · exact Below.refl _
      · dsimp only
        rw [resolveTypeByName_text n d hs, resolveTypeByName_text (n + 1) d hs]
        exact Below.refl _

theorem efiMemTypecast_grows (self : Mem) (d : TypeDesc) :
    Grows .fuel fun n => efiMemTypecast a ns n self d := by
  intro n
  induction n generalizing self d with
  | zero => exact Or.inl rfl
  | succ n ih =>
      have hd : DerefBelow (castByName a ns n) (castByName a ns (n + 1)) := by
        intro m name
        exact (resolve_grows ns .none name n).bind fun d => ih m d
      cases d with
      | none => exact Below.refl _
      | dict entries => exact castByDict_below hd self entries
      | str t => exact (castByStr_below hd self _).bind fun _ => Below.refl _
      | other => exact Below.refl _

theorem castByName_grows (self : Mem) (name : Str) :
    Grows .fuel fun n => castByName a ns n self name := by
  intro n
  exact (resolve_grows ns .none name n).bind fun d => efiMemTypecast_grows a ns self d n

theorem derefBelow_castByName (n : Nat) :
    DerefBelow (castByName a ns n) (castByName a ns (n + 1)) :=
  fun m name => castByName_grows a ns m name n

theorem efiMemNew_grows (buf : Nat) (t : Str) (readonly pmem : Bool) :
    Grows .fuel fun n => efiMemNew a ns n buf (some t) readonly pmem :=
  fun n => newBySpec_below (derefBelow_castByName a ns n) buf t readonly pmem

end Grows

/-! ## From name to name -/

/-- The name that the reader of typecodes comes to. It looks at no name behind a pointer. -/
def nameRead : Str → Option Str
  | [] => none
  | c :: rest =>
      if c.isDigit then nameRead rest
      else if c.isAlpha then
        if c = 'O' then if rest.head? = some '#' then some rest else none
        else if c = 'F' then
          if rest = [] then none else nameRead (prototype [] false [] rest).2.2
        else if c = 'T' ∨ c = 'P' ∨ c = 'G' then none
        else nameRead rest
      else if c = ':' then nameRead rest
      else none
termination_by text => text.length
decreasing_by
  all_goals simp
  have := prototype_length [] false [] rest
  omega

/-- The names that reading a description comes to. -/
def Reads (name : Str) : TypeDesc → Prop
  | .str t => nameRead (afterCount t) = some name
  | .dict entries => ∃ e ∈ entries, ∃ t, e.2 = .str t ∧ nameRead (afterCount t) = some name
  | _ => False

/-- What an object leads to: a text that is a name is followed, anything else is read. -/
def LeadsTo (name : Str) : TypeDesc → Prop
  | .str s => if s.head? = some '#' then name = s else Reads name (.str s)
  | d => Reads name d

/-- What is bound to the first name leads to the second one. -/
def Refers (ns : Namespace) (name next : Str) : Prop :=
  ∃ x o, name = '#' :: x ∧ loadObjByNamespace ns none [] x = .ok o ∧ LeadsTo next (ns.desc o)

/-- From a description one can go on from name to name for ever. -/
def Endless (ns : Namespace) (d : TypeDesc) : Prop :=
  ∃ f : Nat → Str, Reads (f 0) d ∧ ∀ i, Refers ns (f i) (f (i + 1))

/-- Looking up a name ends. -/
structure LookupsEnd (ns : Namespace) : Prop where
  loadName : ∀ name, ns.loadName name ≠ .error .fuel
  loadAttr : ∀ o name, ns.loadAttr o name ≠ .error .fuel

/-- With enough fuel there is a result. -/
abbrev Ended {α : Type} (f : Nat → Res α) : Prop := ∃ r, Settles .fuel f r

section Ended

variable {a : Arch} {ns : Namespace}

theorem ended_ok {α : Type} (x : α) : Ended fun _ => (.ok x : Res α) :=
  ⟨_, Settles.const (by simp)⟩

theorem ended_raise {α : Type} (type : ExcType) (msg : String) :
    Ended fun _ => (.error (.raise type msg) : Res α) :=
  ⟨_, Settles.const (by simp)⟩

theorem ended_const {α : Type} {r : Res α} (hr : r ≠ .error .fuel) : Ended fun _ => r :=
  ⟨r, Settles.const hr⟩

theorem bind_ne_fuel {α β : Type} {x : Res α} {f : α → Res β} (hx : x ≠ .error .fuel)
    (hf : ∀ y, x = .ok y → f y ≠ .error .fuel) : x >>= f ≠ .error .fuel := by
  cases x with
  | error e => exact fun h => hx (congrArg _ (Except.error.inj h))
  | ok y => exact hf y rfl

theorem load_ne_fuel (hns : LookupsEnd ns) (o : Option ns.Obj) (name s : Str) :
    loadObjByNamespace ns o name s ≠ .error .fuel := by
  have hload : ∀ o name, ns.load o name ≠ .error .fuel := by
    intro o name
    cases o with
    | none => exact hns.loadName name
    | some o => exact hns.loadAttr o name
  induction s generalizing o name with
  | nil =>
      unfold loadObjByNamespace
      split
      · simp
      · exact hload o name
  | cons c s ih =>
      unfold loadObjByNamespace
      split
      · simp
      · split
        · exact ih _ _
        · refine bind_ne_fuel (hload o name) fun next _ => ?_
          cases next with
          | none => simp
          | some next => exact ih _ _

theorem efiMemGetSize_ne_fuel (a : Arch) (m : Mem) : efiMemGetSize a m ≠ .error .fuel := by
  unfold efiMemGetSize
  split
  · simp
  · split <;> simp

theorem fillSize_ne_fuel (a : Arch) (m : Mem) (len : Nat) : m.fillSize a len ≠ .error .fuel := by
  unfold Mem.fillSize
  split
  · exact bind_ne_fuel (efiMemGetSize_ne_fuel a m) fun _ _ => by simp
  · simp

theorem efiMemUpdateAddr_ne_fuel {base : Nat} {m : Mem} (h : Fits a m) :
    efiMemUpdateAddr a base m ≠ .error .fuel := by
  induction h with
  | @intro m _ _ _ ih =>
      rw [efiMemUpdateAddr_eq]
      refine bind_ne_fuel ?_ fun _ _ => by simp
      split
      · cases hm : m.fields with
        | null => simp [updateFields]
        | args items =>
            rw [updateFields]
            split <;> simp
        | dict entries =>
            refine bind_ne_fuel ?_ fun _ _ => by simp
            have hih := ih entries hm
            clear ih hm
            induction entries with
            | nil => simp [updateEntries]
            | cons e rest ihrest =>
                rcases e with ⟨key, g⟩
                rw [List.forall_mem_cons] at hih
                have hone : updateEntry a base (key, g) ≠ .error .fuel :=
                  bind_ne_fuel hih.1 fun _ _ => by simp
                exact bind_ne_fuel hone fun _ _ => bind_ne_fuel (ihrest hih.2) fun _ _ => by simp
      · simp

/-- How a text is read, given the casts to names: either no name matters to it, or the cast to the
name that it comes to is the last step but for `bitnum`. -/
inductive ReadAs : Option Str → ((Mem → Str → Res Mem) → Res Mem) → Prop where
  | plain {name : Option Str} {r : Res Mem} (hr : r ≠ .error .fuel) : ReadAs name fun _ => r
  | named (name : Str) {self : Mem} (bitfield : Bool) (hsize : self.typesize = 0) :
      ReadAs (some name) fun deref => deref self name >>= fun g => .ok (finish g 0 bitfield)

theorem ReadAs.of_eq {name : Option Str} {f g : (Mem → Str → Res Mem) → Res Mem}
    (h : ReadAs name g) (hfg : ∀ deref, f deref = g deref) : ReadAs name f := by
  rwa [show f = g from funext hfg]

theorem byStrLoop_readAs (a : Arch) (self : Mem) (num : Nat) (bitfield : Bool) (text : Str) :
    ReadAs (nameRead text) fun deref => byStrLoop a deref self num bitfield text := by
  fun_induction nameRead text generalizing self num bitfield with
  | case1 =>
      have hr : (.ok (finish self num bitfield) : Res Mem) ≠ .error .fuel := by simp
      exact (ReadAs.plain hr).of_eq fun deref => byStrLoop_nil _ _ _
  | case2 c rest hc ih => exact (ih _ _ _).of_eq fun deref => byStrLoop_digit _ _ _ _ hc
  | case3 rest hr =>
      -- the one place where the loop asks for a name
      exact (ReadAs.named rest bitfield rfl).of_eq fun deref => byStrLoop_object _ _ _ _ hr
  | case4 rest hr =>
      exact (ReadAs.plain (by simp)).of_eq fun deref => byStrLoop_object_bare _ _ _ _ hr
  | case5 => exact (ReadAs.plain (by simp)).of_eq fun deref => byStrLoop_function_nil _ _ _
  | case6 rest hr =>
      rename_i ih
      exact (ih _ _ _).of_eq fun deref => byStrLoop_function _ _ _ _ hr
  | case7 c rest _ _ _ _ hc =>
      rcases hc with rfl | rfl | rfl
      · exact (ReadAs.plain (by simp)).of_eq fun deref => byStrLoop_pointer _ _ _ _ (Or.inl rfl)
      · exact (ReadAs.plain (by simp)).of_eq fun deref => byStrLoop_pointer _ _ _ _ (Or.inr rfl)
      · exact (ReadAs.plain (by simp)).of_eq fun deref => byStrLoop_guid _ _ _ _
  | case8 c rest hd hα hO hF hc ih =>
      rw [← or_assoc, not_or] at hc
      exact (ih _ _ _).of_eq fun deref => byStrLoop_letter _ _ _ _ hd hα hO hF hc.1 hc.2
  | case9 rest _ _ ih =>
      by_cases hwide : 8 < self.typesize
      · exact (ReadAs.plain (by simp)).of_eq fun deref => byStrLoop_colon_wide _ _ _ _ hwide
      · exact (ih _ _ _).of_eq fun deref => byStrLoop_colon _ _ _ _ (Nat.not_lt.mp hwide)
  | case10 c rest hd hα hcolon =>
      exact (ReadAs.plain (by simp)).of_eq fun deref => byStrLoop_invalid _ _ _ _ hd hα hcolon

/-- A text ends where the name ends that it comes to. -/
theorem castByStr_ended {deref : Nat → Mem → Str → Res Mem} {text : Str}
    (hname : ∀ name, nameRead text = some name → ∀ m, Ended fun n => deref n m name) (self : Mem) :
    Ended fun n => castByStr a (deref n) self text := by
  have hread := byStrLoop_readAs a { self with typespec := some text } 0 false text
  generalize hloop : (fun deref => byStrLoop a deref { self with typespec := some text } 0 false
    text) = loop at hread
  have hcast : (fun n => castByStr a (deref n) self text) = fun n => loop (deref n) := by
    rw [← hloop]
    rfl
  rw [hcast]
  generalize hn : nameRead text = name? at hread
  cases hread with
  | plain hr => exact ended_const hr
  | named name bitfield _ =>
      exact exists_settles_bind (hname name hn _) fun g _ => ended_ok _

/-- The cast to a name ends, whatever object is cast. -/
def NameEnds (a : Arch) (ns : Namespace) (name : Str) : Prop :=
  ∃ r, Settles .fuel (fun n => resolveTypeByName ns n .none name) r ∧
    ∀ d, r = .ok d → ∀ self, Ended fun n => efiMemTypecast a ns n self d

theorem castByName_ended {name : Str} (h : NameEnds a ns name) (self : Mem) :
    Ended fun n => castByName a ns n self name := by
  rcases h with ⟨r, hr, hcast⟩
  refine exists_settles_bind ⟨r, hr⟩ fun d hd => ?_
  exact hcast d (hr.unique hd) self

theorem newN_ended {t : Str} (ht : ∀ name, nameRead t = some name → NameEnds a ns name)
    (buf len : Nat) (readonly pmem : Bool) :
    Ended fun n => newN a (castByName a ns n) buf len (some t) readonly pmem := by
  refine exists_settles_bind ?_ fun g _ => ended_ok _
  exact castByStr_ended (fun name hname m => castByName_ended (ht name hname) m) _

theorem newBySpec_ended {t : Str} (ht : ∀ name, Reads name (.str t) → NameEnds a ns name)
    (buf : Nat) (readonly pmem : Bool) :
    Ended fun n => newBySpec a (castByName a ns n) buf t readonly pmem :=
  newN_ended ht _ _ _ _

theorem byDictLoop_ended {entries : List (Str × SpecObj)}
    (he : ∀ name, Reads name (.dict entries) → NameEnds a ns name) (readonly page : Bool)
    (last : Option Mem) (addr : Nat) :
    Ended fun n => byDictLoop a (castByName a ns n) readonly page last addr entries := by
  induction entries generalizing last addr with
  | nil => exact ended_ok _
  | cons e rest ih =>
      rcases e with ⟨key, value⟩
      have hrest : ∀ name, Reads name (.dict rest) → NameEnds a ns name := by
        rintro name ⟨e, hmem, ht⟩
        exact he name ⟨e, List.mem_cons_of_mem _ hmem, ht⟩
      have hspec : strGetStr value ≠ .error .fuel := by
        cases value <;> simp [strGetStr]
      refine exists_settles_bind (ended_const hspec) fun t ht => ?_
      have hvalue : value = .str t := by
        have heq := ht.unique (Settles.const hspec)
        cases value with
        | str s => rw [Except.ok.inj heq]
        | other s => cases heq
      refine exists_settles_bind (newBySpec_ended ?_ addr readonly page) fun field _ => ?_
      · intro name hname
        exact he name ⟨(key, value), List.mem_cons_self, t, hvalue, hname⟩
      · refine exists_settles_bind (ended_const (efiMemGetSize_ne_fuel a _)) fun size _ => ?_
        exact exists_settles_bind (ih hrest _ _) fun _ _ => ended_ok _

/-- A cast ends when the casts to the names end that it comes to. -/
theorem efiMemTypecast_ended {d : TypeDesc} (hd : ∀ name, Reads name d → NameEnds a ns name)
    (self : Mem) : Ended fun n => efiMemTypecast a ns n self d := by
  have hsucc : Ended fun n => efiMemTypecast a ns (n + 1) self d := by
    cases d with
    | none => exact ended_ok _
    | other => exact ended_raise _ _
    | dict entries => exact exists_settles_bind (byDictLoop_ended hd _ _ _ _) fun _ _ => ended_ok _
    | str t =>
        refine exists_settles_bind ?_ fun g _ => ended_const (fillSize_ne_fuel a g _)
        exact castByStr_ended (fun name hname m => castByName_ended (hd name hname) m) self
  rcases hsucc with ⟨r, hr⟩
  exact ⟨r, hr.of_succ⟩

/-- By induction on the steps from name to name. -/
theorem nameEnds_of_acc (hns : LookupsEnd ns) {name : Str}
    (h : Acc (fun next name => Refers ns name next) name) : NameEnds a ns name := by
  induction h with
  | intro name _ ih =>
      by_cases hs : name.head? = some '#'
      · obtain ⟨x, rfl⟩ : ∃ x, name = '#' :: x := ⟨name.tail, (List.cons_head?_tail hs).symm⟩
        cases ho : loadObjByNamespace ns none [] x with
        | error e =>
            -- a lookup that raises ends the chain
            have hr : (.error e : Res TypeDesc) ≠ .error .fuel := by
              intro he
              exact load_ne_fuel hns none [] x (ho.trans (congrArg _ (Except.error.inj he)))
            refine ⟨.error e, Settles.of_succ ((Settles.const hr).congr fun n => ?_), fun d hd => ?_⟩
            · rw [resolveTypeByName_name, ho]
              rfl
            · cases hd
        | ok o =>
            -- all names that the found text leads to come before this one
            have hnext : ∀ next, LeadsTo next (ns.desc o) → NameEnds a ns next :=
              fun next h => ih next ⟨x, o, rfl, ho, h⟩
            have hstep : ∀ n, resolveTypeByName ns (n + 1) .none ('#' :: x) =
                match ns.desc o with
                | .str s => resolveTypeByName ns n (.str s) s
                | d => .ok d := by
              intro n
              rw [resolveTypeByName_name, ho]
              rfl
            have hfound : ∀ d, ns.desc o = d → (∀ s, d ≠ .str s) → NameEnds a ns ('#' :: x) := by
              intro d hd hstr
              refine ⟨.ok d, Settles.of_succ ((Settles.const (by simp)).congr fun n => ?_), ?_⟩
              · rw [hstep, hd]
                cases d <;> first | rfl | exact absurd rfl (hstr _)
              · intro d' hd'
                cases hd'
                refine efiMemTypecast_ended fun next h => hnext next ?_
                rw [hd]
                cases d <;> first | exact h | exact absurd rfl (hstr _)
            cases hd : ns.desc o with
            | none => exact hfound _ hd (by simp)
            | other => exact hfound _ hd (by simp)
            | dict entries => exact hfound _ hd (by simp)
            | str s =>
                simp only [hd] at hstep hnext
                by_cases hs : s.head? = some '#'
                · -- an alias of an alias
                  rcases hnext s (by rw [LeadsTo, if_pos hs]) with ⟨r, hr, hcast⟩
                  refine ⟨r, Settles.of_succ (hr.congr fun n => ?_), hcast⟩
                  rw [hstep, resolveTypeByName_start n _ .none hs]
                · -- the found text is a type
                  refine ⟨.ok (.str s), Settles.of_succ (Settles.of_succ
                    ((Settles.const (by simp)).congr fun n => ?_)), ?_⟩
                  · rw [hstep, resolveTypeByName_text _ _ hs]
                  · intro d' hd'
                    cases hd'
                    exact efiMemTypecast_ended fun next h => hnext next (by rwa [LeadsTo, if_neg hs])
      · -- what does not start with `#` is no name
        refine ⟨.ok .none, Settles.of_succ ((Settles.const (by simp)).congr fun n => ?_), ?_⟩
        · exact resolveTypeByName_text n .none hs
        · intro d hd self
          cases hd
          exact efiMemTypecast_ended (fun next (h : Reads next .none) => False.elim h) self

theorem nameEnds_of_not_endless (hns : LookupsEnd ns) {d : TypeDesc} (hd : ¬ Endless ns d)
    {name : Str} (h : Reads name d) : NameEnds a ns name := by
  refine nameEnds_of_acc hns ?_
  by_contra hacc
  rcases not_acc_iff_exists_descending_chain.mp hacc with ⟨f, hzero, hf⟩
  exact hd ⟨f, hzero ▸ h, hf⟩

end Ended

/-- A description is read to its end, in a new object and in a cast, whenever one cannot go on for
ever from name to name. -/
theorem reading_ends (a : Arch) {ns : Namespace} (hns : LookupsEnd ns) {t : Str}
    (ht : ¬ Endless ns (.str t)) :
    (∀ addr pmem readonly alloc, Ends .fuel fun n =>
        efiMemMakeNew a ns n (.spec t) addr pmem readonly alloc) ∧
      ∀ self, Ends .fuel fun n => efiMemTypecast a ns n self (.str t) := by
  have hnames : ∀ name, Reads name (.str t) → NameEnds a ns name :=
    fun name h => nameEnds_of_not_endless hns ht h
  constructor
  · intro addr pmem readonly alloc
    have hobj : Ended fun n => makeNewObj a ns n addr pmem readonly (.spec t) := by
      cases t with
      | nil =>
          have hletter : ∀ name, nameRead ['B'] = some name → NameEnds a ns name := by
            simp [nameRead]
          rcases newN_ended hletter addr 0 readonly pmem with ⟨r, hr⟩
          exact ⟨_, hr.map _⟩
      | cons c t =>
          rcases newBySpec_ended hnames addr readonly pmem with ⟨r, hr⟩
          exact ⟨_, hr.map _⟩
    have hnew : Ended fun n => efiMemMakeNew a ns n (.spec t) addr pmem readonly alloc := by
      refine exists_settles_bind hobj fun p hp => ended_const ?_
      -- what was made fits, so its address is set without more fuel
      rcases hp with ⟨-, k, hk⟩
      have hfits : Fits a p.1 := makeNewObj_fits (hk k (Nat.le_refl k))
      split
      · exact efiMemUpdateAddr_ne_fuel hfits
      · simp
    rcases hnew with ⟨r, hr⟩
    exact hr.ends
  · intro self
    rcases efiMemTypecast_ended hnames self with ⟨r, hr⟩
    exact hr.ends

/-- The names of a script that binds some names to descriptions. -/
def globals (bound : List (Str × TypeDesc)) : Namespace where
  Obj := TypeDesc
  loadName := fun name =>
    match bound.lookup name with
    | some d => .ok (some d)
    | none => .error (.raise .nameError "name not defined")
  loadAttr := fun _ _ => .error (.raise .attributeError "object has no attribute")
  view := fun d => d

theorem globals_lookupsEnd (bound : List (Str × TypeDesc)) : LookupsEnd (globals bound) where
  loadName := by
    intro name
    unfold globals
    dsimp only
    split <;> simp
  loadAttr := by simp [globals]

/-- A list: the pointer to the next element is not followed. -/
def listNames : Namespace :=
  globals [(['L'], .dict [(['n'], .str ['P', 'O', '#', 'L']), (['v'], .str ['I'])])]

theorem reading_ends_list :
    LookupsEnd listNames ∧ ¬ Endless listNames (.str ['O', '#', 'L']) ∧
      (∀ addr pmem readonly alloc, Ends .fuel fun n =>
        efiMemMakeNew .x64 listNames n (.spec ['O', '#', 'L']) addr pmem readonly alloc) ∧
      ∀ self, Ends .fuel fun n => efiMemTypecast .x64 listNames n self (.str ['O', '#', 'L']) := by
  have hns : LookupsEnd listNames := globals_lookupsEnd _
  have hend : ¬ Endless listNames (.str ['O', '#', 'L']) := by
    rintro ⟨f, hzero, hf⟩
    have hname : f 0 = ['#', 'L'] := by
      have hread : nameRead ['O', '#', 'L'] = some ['#', 'L'] := by simp [nameRead]
      exact (Option.some.inj (hread.symm.trans hzero)).symm
    rcases hf 0 with ⟨x, o, hx, ho, hlead⟩
    rw [hname] at hx
    cases hx
    cases ho
    rcases hlead with ⟨e, he, t, ht, hread⟩
    have hpointer : nameRead ['P', 'O', '#', 'L'] = none := by simp [nameRead]
    have hletter : nameRead ['I'] = none := by simp [nameRead]
    rcases List.mem_pair.mp he with rfl | rfl
    · cases ht
      cases hpointer.symm.trans hread
    · cases ht
      cases hletter.symm.trans hread
  exact ⟨hns, hend, reading_ends .x64 hns hend⟩

/-- A name that is an alias of itself. -/
def selfNames : Namespace := globals [(['A'], .str ['#', 'A'])]

/-- Such a name is followed for ever. -/
theorem self_alias_never_ends :
    ¬ Ends .fuel fun n =>
      efiMemMakeNew .x64 selfNames n (.spec ['O', '#', 'A']) 4096 false false fun _ => 0 := by
  rintro ⟨n, hn⟩
  refine hn ?_
  have hresolve : ∀ n d, resolveTypeByName selfNames n d ['#', 'A'] = .error .fuel := by
    intro n
    induction n with
    | zero => exact fun d => rfl
    | succ n ih =>
        intro d
        rw [resolveTypeByName_name]
        exact ih _
  have hnew : efiMemNew .x64 selfNames n 4096 (some ['O', '#', 'A']) false false =
      .error .fuel := by
    show (byStrLoop _ _ _ 0 false ['O', '#', 'A'] >>= _) = _
    rw [byStrLoop_object _ _ _ _ rfl, castByName, hresolve]
    rfl
  dsimp only
  rw [efiMemMakeNew, makeNewObj_spec _ _ _ _ _ _ (by decide), hnew]
  rfl

end EfiLvgl.Uefi
