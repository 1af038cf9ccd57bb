import EfiLvgl.Uefi.Typecast

/-!
# EfiLvgl.Uefi.InPlace — what a cast leaves of its object

`CAST` writes to the object while it reads the description. When it raises, the script still has
the object, with all that was written until then. Here the readers hand back the object in any case,
and which attributes they have written to, one after the other. Where they return, they are those of
`Typecast` (`castInPlace_result`).
-/

namespace EfiLvgl.Uefi

/-- The attributes that a cast writes to; `args` and `fields` share their place. -/
inductive Attr where
  | typespec
  | typesize
  | type
  | args
  | fields
  | hasvarg
  | bitoff
  | bitnum
  | size
deriving DecidableEq, Repr

/-- A cast that has ended: the object, the attributes written to, and why it has not returned. -/
structure InPlace where
  self : Mem
  writes : List Attr
  stop : Option Stop

/-- The object as the caller gets it. -/
def InPlace.result (r : InPlace) : Res Mem :=
  match r.stop with
  | none => .ok r.self
  | some e => .error e

/-- What was written to before. -/
def InPlace.behind (r : InPlace) (writes : List Attr) : InPlace :=
  { r with writes := writes ++ r.writes }

/-- A cast that returns goes on. -/
def InPlace.next (r : InPlace) (f : Mem → InPlace) : InPlace :=
  match r.stop with
  | none => (f r.self).behind r.writes
  | some _ => r

/-- `bitnum` is set behind the loop, once a `:` has been seen. -/
def finishInPlace (self : Mem) (num : Nat) (bitfield : Bool) : InPlace :=
  ⟨finish self num bitfield, if bitfield then [.bitnum] else [], none⟩

/-- The loop of `efi_mem_typecast_by_str`. -/
def byStrInPlace (a : Arch) (deref : Mem → Str → InPlace) (self : Mem) (num : Nat)
    (bitfield : Bool) : Str → InPlace
  | [] => finishInPlace self num bitfield
  | c :: rest =>
      if c.isDigit then byStrInPlace a deref self (digit a num c) bitfield rest
      else if c.isAlpha then
        let self := { self with typesize := typeSize a c }
        if c = 'O' then
          if rest.head? ≠ some '#' then
            ⟨self, [.typesize], some (.raise .valueError
              "Object/structure '#<name>' must be given after 'O' typecode")⟩
          else
            ((deref self rest).next fun self => finishInPlace self 0 bitfield).behind [.typesize]
        else if c = 'F' then
          let self := { self with type := .fptr }
          if rest = [] then (finishInPlace self 0 bitfield).behind [.typesize, .type]
          else
            let p := prototype [] false [] rest
            (byStrInPlace a deref
              { self with fields := .args p.1, hasvarg := self.hasvarg || p.2.1 } 0 bitfield
              p.2.2).behind ([.typesize, .type] ++ (if p.2.1 then [.hasvarg] else []) ++ [.args])
        else if c = 'T' ∨ c = 'P' then (finishInPlace self 0 bitfield).behind [.typesize]
        else if c = 'G' then
          (finishInPlace { self with type := .guid } 0 bitfield).behind [.typesize, .type]
        else (byStrInPlace a deref self 0 bitfield rest).behind [.typesize]
      else if c = ':' then
        if 8 < self.typesize then
          ⟨self, [], some (.raise .valueError "Bitfield supports base integer type only.")⟩
        else
          (byStrInPlace a deref { self with bitoff := num % 256 } 0 true rest).behind [.bitoff]
      else ⟨self, [], some (.raise .valueError "Invalid type format")⟩
termination_by text => text.length
decreasing_by
  all_goals simp
  have := prototype_length [] false [] rest
  omega

/-- The size of an object that has none. -/
def fillInPlace (a : Arch) (len : Nat) (self : Mem) : InPlace :=
  match self.fillSize a len with
  | .ok self' => ⟨self', if self.size = 0 then [.size] else [], none⟩
  | .error e => ⟨self, [], some e⟩

/-- `efi_mem_typecast`. The fields of a structure are new objects, and are dropped when one of them
is refused. -/
def castInPlace (a : Arch) (ns : Namespace) : Nat → Mem → TypeDesc → InPlace
  | 0, self, _ => ⟨self, [], some .fuel⟩
  | n + 1, self, typedesc =>
      let deref := fun self name =>
        match resolveTypeByName ns n .none name with
        | .ok desc => castInPlace a ns n self desc
        | .error e => ⟨self, [], some e⟩
      match typedesc with
      | .none => ⟨{ self with typespec := none, typesize := 1 }, [.typespec, .typesize], none⟩
      | .dict entries =>
          match efiMemTypecastByDict a ns n self entries with
          | .ok self' => ⟨self', [.typesize, .fields], none⟩
          | .error e => ⟨self, [], some e⟩
      | .str typespec =>
          ((byStrInPlace a deref { self with typespec := some (afterCount typespec) } 0 false
            (afterCount typespec)).behind [.typespec]).next (fillInPlace a (repeatCount a typespec))
      | .other => ⟨self, [], some (.raise .valueError "Invalid type object")⟩

/-- An object in the middle of a cast is cast to what `#name` stands for. -/
def nameInPlace (a : Arch) (ns : Namespace) (n : Nat) (self : Mem) (name : Str) : InPlace :=
  match resolveTypeByName ns n .none name with
  | .ok desc => castInPlace a ns n self desc
  | .error e => ⟨self, [], some e⟩

theorem castInPlace_str (a : Arch) (ns : Namespace) (n : Nat) (self : Mem) (typespec : Str) :
    castInPlace a ns (n + 1) self (.str typespec) =
      ((byStrInPlace a (nameInPlace a ns n) { self with typespec := some (afterCount typespec) } 0
        false (afterCount typespec)).behind [.typespec]).next
          (fillInPlace a (repeatCount a typespec)) := rfl

/-! ## Casts that return -/

@[simp] theorem InPlace.result_behind (r : InPlace) (writes : List Attr) :
    (r.behind writes).result = r.result := rfl

theorem InPlace.result_next (r : InPlace) (f : Mem → InPlace) :
    (r.next f).result = r.result >>= fun self => (f self).result := by
  rcases r with ⟨self, writes, stop⟩
  cases stop with
  | none => rfl
  | some e => rfl

theorem fillInPlace_result (a : Arch) (len : Nat) (self : Mem) :
    (fillInPlace a len self).result = self.fillSize a len := by
  rw [fillInPlace]
  cases self.fillSize a len with
  | ok self' => rfl
  | error e => rfl

theorem byStrInPlace_result {a : Arch} {deref : Mem → Str → InPlace} {deref' : Mem → Str → Res Mem}
    (hd : ∀ self name, (deref self name).result = deref' self name) (self : Mem) (num : Nat)
    (bitfield : Bool) (text : Str) :
    (byStrInPlace a deref self num bitfield text).result =
      byStrLoop a deref' self num bitfield text := by
  fun_induction byStrInPlace a deref self num bitfield text with
  | case1 self num bitfield =>
      rw [byStrLoop_nil]
      rfl
  | case2 self num bitfield c rest hc ih =>
      rw [byStrLoop_digit _ _ _ _ hc]
      exact ih
  | case3 self num bitfield rest hr =>
      rw [byStrLoop_object_bare _ _ _ _ hr]
      rfl
  | case4 self num bitfield rest hr =>
      rw [byStrLoop_object _ _ _ _ (not_not.mp hr), InPlace.result_behind, InPlace.result_next, hd]
      rfl
  | case5 self num bitfield =>
      rw [byStrLoop_function_nil]
      rfl
  | case6 self num bitfield rest hr =>
      rename_i ih
      rw [byStrLoop_function _ _ _ _ hr]
      exact ih
  | case7 self num bitfield c rest =>
      rename_i hc
      rw [byStrLoop_pointer _ _ _ _ hc]
      rcases hc with rfl | rfl <;> rfl
  | case8 self num bitfield rest =>
      rw [byStrLoop_guid]
      rfl
  | case9 self num bitfield c rest hc hα _ hO hF hP =>
      rename_i hG ih
      rw [byStrLoop_letter _ _ _ _ hc hα hO hF hP hG]
      exact ih
  | case10 self num bitfield rest hwide =>
      rw [byStrLoop_colon_wide _ _ _ _ hwide]
      rfl
  | case11 self num bitfield rest hwide _ _ ih =>
      rw [byStrLoop_colon _ _ _ _ (Nat.not_lt.mp hwide)]
      exact ih
  | case12 self num bitfield c rest hc hα hcolon =>
      rw [byStrLoop_invalid _ _ _ _ hc hα hcolon]
      rfl

/-- A cast in place hands back what `efi_mem_typecast` makes of the object, or raises with it. -/
theorem castInPlace_result (a : Arch) (ns : Namespace) (n : Nat) (self : Mem) (d : TypeDesc) :
    (castInPlace a ns n self d).result = efiMemTypecast a ns n self d := by
  induction n generalizing self d with
  | zero => rfl
  | succ n ih =>
      have hname : ∀ self name, (nameInPlace a ns n self name).result =
          castByName a ns n self name := by
        intro self name
        rw [nameInPlace, castByName]
        cases resolveTypeByName ns n .none name with
        | ok desc => exact ih self desc
        | error e => rfl
      cases d with
      | none => rfl
      | other => rfl
      | dict entries =>
          rw [efiMemTypecast_dict, castInPlace]
          cases efiMemTypecastByDict a ns n self entries with
          | ok self' => rfl
          | error e => rfl
      | str t =>
          rw [castInPlace_str, efiMemTypecast_str, InPlace.result_next, InPlace.result_behind,
            byStrInPlace_result hname]
          simp only [fillInPlace_result]
          rfl

end EfiLvgl.Uefi
