import EfiLvgl.Uefi.Layout

/-!
# EfiLvgl.Uefi.Shift — construction at another address

Offsets in a structure are kept as addresses from the start. Still no reader of a description
looks at an address: what is built `base` further on is the same object with every address
moved by `base` (`efiMemNew_shift`), by induction on the depth of aliases.
-/

namespace EfiLvgl.Uefi

/-! ## Moving -/

mutual

/-- An object and all its fields, `base` further on. -/
def Mem.shift (a : Arch) (base : Nat) : Mem → Mem
  | .mk type addr fields bitoff bitnum readonly hasvarg overrw page typespec typesize size =>
      .mk type ((base + addr) % a.word) (shiftFields a base fields) bitoff bitnum readonly hasvarg
        overrw page typespec typesize size

/-- Fields, `base` further on. -/
def shiftFields (a : Arch) (base : Nat) : Fields Mem → Fields Mem
  | .null => .null
  | .dict entries => .dict (shiftEntries a base entries)
  | .args items => .args items

/-- The entries of a dictionary, `base` further on. -/
def shiftEntries (a : Arch) (base : Nat) : List (Str × Mem) → List (Str × Mem)
  | [] => []
  | e :: rest => shiftEntry a base e :: shiftEntries a base rest

/-- One entry, `base` further on. -/
def shiftEntry (a : Arch) (base : Nat) : Str × Mem → Str × Mem
  | (key, m) => (key, m.shift a base)

end

section Shift

variable {a : Arch} {base : Nat}

theorem Mem.shift_eq (m : Mem) :
    m.shift a base =
      { m with addr := (base + m.addr) % a.word, fields := shiftFields a base m.fields } := by
  cases m
  rw [Mem.shift]

theorem shift_setTypespec (m : Mem) (t : Option Str) :
    Mem.shift a base { m with typespec := t } = { m.shift a base with typespec := t } := by
  rw [Mem.shift_eq, Mem.shift_eq]

theorem shift_setTypesize (m : Mem) (x : Nat) :
    Mem.shift a base { m with typesize := x } = { m.shift a base with typesize := x } := by
  rw [Mem.shift_eq, Mem.shift_eq]

theorem shift_setType (m : Mem) (type : ObjType) (x : Nat) :
    Mem.shift a base { m with typesize := x, type := type } =
      { m.shift a base with typesize := x, type := type } := by
  rw [Mem.shift_eq, Mem.shift_eq]

theorem shift_setBitoff (m : Mem) (x : Nat) :
    Mem.shift a base { m with bitoff := x } = { m.shift a base with bitoff := x } := by
  rw [Mem.shift_eq, Mem.shift_eq]

theorem shift_finish (m : Mem) (num : Nat) (bitfield : Bool) :
    (finish m num bitfield).shift a base = finish (m.shift a base) num bitfield := by
  cases bitfield with
  | false => rfl
  | true =>
      unfold finish
      rw [if_pos rfl, if_pos rfl, Mem.shift_eq, Mem.shift_eq]

theorem shift_sized (m : Mem) (len : Nat) (pmem : Bool) :
    (m.sized a len pmem).shift a base = (m.shift a base).sized a len pmem := by
  unfold Mem.sized
  rw [Mem.shift_eq, Mem.shift_eq]

theorem shift_blank (buf : Nat) (readonly : Bool) :
    (blank buf readonly).shift a base = blank ((base + buf) % a.word) readonly := by
  rw [Mem.shift_eq]
  rfl

theorem efiMemGetSize_shift (m : Mem) : efiMemGetSize a (m.shift a base) = efiMemGetSize a m := by
  rw [Mem.shift_eq]
  rfl

theorem follow_shift (last : Option Mem) (m : Mem) :
    follow (last.map (Mem.shift a base)) (m.shift a base) = (follow last m).shift a base := by
  cases last with
  | none => rfl
  | some last =>
      simp only [Option.map_some, follow]
      split
      · next h =>
          rw [Mem.shift_eq, Mem.shift_eq] at h
          rw [if_pos h, shift_setBitoff, Mem.shift_eq last]
      · next h =>
          rw [Mem.shift_eq, Mem.shift_eq] at h
          rw [if_neg h]

theorem Arch.sub_add_modEq (x y : Nat) : a.sub x y + y ≡ x [MOD a.word] := by
  have hy := Nat.mod_lt y a.word_pos
  have hdm := Nat.div_add_mod y a.word
  unfold Arch.sub
  refine ((Nat.mod_modEq _ _).add_right y).trans ?_
  have heq : x + (a.word - y % a.word) + y = x + a.word * (y / a.word + 1) := by
    rw [Nat.mul_succ]
    omega
  rw [heq]
  exact Nat.add_modulus_mul_modEq_iff.mpr rfl

/-- A distance is the same everywhere. -/
theorem Arch.sub_shift (x y : Nat) :
    a.sub ((base + x) % a.word) ((base + y) % a.word) = a.sub x y := by
  have hleft := a.sub_add_modEq ((base + x) % a.word) ((base + y) % a.word)
  have hright := (a.sub_add_modEq x y).add_left base
  have hmod : a.sub ((base + x) % a.word) ((base + y) % a.word) + (base + y) ≡
      a.sub x y + (base + y) [MOD a.word] := by
    calc a.sub ((base + x) % a.word) ((base + y) % a.word) + (base + y)
        ≡ a.sub ((base + x) % a.word) ((base + y) % a.word) + (base + y) % a.word [MOD a.word] :=
          (Nat.mod_modEq _ _).symm.add_left _
      _ ≡ (base + x) % a.word [MOD a.word] := hleft
      _ ≡ base + x [MOD a.word] := Nat.mod_modEq _ _
      _ ≡ base + (a.sub x y + y) [MOD a.word] := hright.symm
      _ = a.sub x y + (base + y) := by omega
  exact (Nat.ModEq.add_right_cancel' _ hmod).eq_of_lt_of_lt (a.sub_lt _ _) (a.sub_lt _ _)

/-- Where a cast is made does not matter to it. -/
def Shifts (a : Arch) (base : Nat) (deref : Mem → Str → Res Mem) : Prop :=
  ∀ (m : Mem) (name : Str), deref (m.shift a base) name = Mem.shift a base <$> deref m name

section Deref

variable {deref : Mem → Str → Res Mem} (hd : Shifts a base deref)

include hd

theorem byStrLoop_shift (self : Mem) (num : Nat) (bitfield : Bool) (text : Str) :
    byStrLoop a deref (self.shift a base) num bitfield text =
      Mem.shift a base <$> byStrLoop a deref self num bitfield text := by
  fun_induction byStrLoop a deref self num bitfield text with
  | case1 self num bitfield =>
      rw [byStrLoop_nil, ← shift_finish]
      rfl
  | case2 self num bitfield c rest hc ih =>
      rw [byStrLoop_digit _ _ _ _ hc]
      exact ih
  | case3 self num bitfield rest hr =>
      rw [byStrLoop_object_bare _ _ _ _ hr]
      rfl
  | case4 self num bitfield rest hr =>
      rw [byStrLoop_object _ _ _ _ (not_not.mp hr), ← shift_setTypesize, hd]
      show _ = Mem.shift a base <$> (deref { self with typesize := 0 } rest >>= _)
      cases deref { self with typesize := 0 } rest with
      | error e => rfl
      | ok m => exact congrArg Except.ok (shift_finish m 0 bitfield).symm
  | case5 self num bitfield =>
      rw [byStrLoop_function_nil, ← shift_setType, ← shift_finish]
      rfl
  | case6 self num bitfield rest hr =>
      -- what is behind the arguments is read on as the same object
      rename_i ih
      rw [byStrLoop_function _ _ _ _ hr, ← ih]
      congr 1
      rw [Mem.shift_eq, Mem.shift_eq]
      rfl
  | case7 self num bitfield c rest _ _ _ _ _ hc =>
      rw [byStrLoop_pointer _ _ _ _ hc, ← shift_setTypesize, ← shift_finish]
      rcases hc with rfl | rfl <;> rfl
  | case8 self num bitfield rest =>
      rw [byStrLoop_guid, ← shift_setType, ← shift_finish]
      rfl
  | case9 self num bitfield c rest hc hα _ hO hF hP hG ih =>
      rw [byStrLoop_letter _ _ _ _ hc hα hO hF hP hG, ← shift_setTypesize]
      exact ih
  | case10 self num bitfield rest hwide =>
      rw [byStrLoop_colon_wide _ _ _ _ (by rw [Mem.shift_eq]; exact hwide)]
      rfl
  | case11 self num bitfield rest hwide _ _ ih =>
      rw [byStrLoop_colon _ _ _ _ (by rw [Mem.shift_eq]; exact Nat.not_lt.mp hwide),
        ← shift_setBitoff]
      exact ih
  | case12 self num bitfield c rest hc hα hcolon =>
      rw [byStrLoop_invalid _ _ _ _ hc hα hcolon]
      rfl

theorem castByStr_shift (self : Mem) (t : Str) :
    castByStr a deref (self.shift a base) t = Mem.shift a base <$> castByStr a deref self t := by
  unfold castByStr
  rw [← shift_setTypespec]
  exact byStrLoop_shift hd _ _ _ _

theorem newN_shift (buf len : Nat) (t : Option Str) (readonly pmem : Bool) :
    newN a deref ((base + buf) % a.word) len t readonly pmem =
      Mem.shift a base <$> newN a deref buf len t readonly pmem := by
  cases t with
  | none =>
      show Except.ok _ = Except.ok _
      rw [shift_sized, shift_setTypesize, shift_blank]
  | some t =>
      show (castByStr a deref (blank ((base + buf) % a.word) readonly) t >>= _) =
        Mem.shift a base <$> (castByStr a deref (blank buf readonly) t >>= _)
      rw [← shift_blank, castByStr_shift hd]
      cases castByStr a deref (blank buf readonly) t with
      | error e => rfl
      | ok m => exact congrArg Except.ok (shift_sized m len pmem).symm

theorem newBySpec_shift (buf : Nat) (t : Str) (readonly pmem : Bool) :
    newBySpec a deref ((base + buf) % a.word) t readonly pmem =
      Mem.shift a base <$> newBySpec a deref buf t readonly pmem :=
  newN_shift hd _ _ _ _ _

theorem byDictLoop_shift (readonly page : Bool) (entries : List (Str × SpecObj))
    (last : Option Mem) (addr : Nat) :
    byDictLoop a deref readonly page (last.map (Mem.shift a base)) ((base + addr) % a.word) entries =
      (fun r => ((base + r.1) % a.word, shiftEntries a base r.2)) <$>
        byDictLoop a deref readonly page last addr entries := by
  induction entries generalizing last addr with
  | nil => rfl
  | cons e rest ih =>
      rcases e with ⟨key, value⟩
      rw [byDictLoop, byDictLoop]
      cases strGetStr value with
      | error e => rfl
      | ok t =>
          rw [bind_ok_left, bind_ok_left, newBySpec_shift hd]
          cases newBySpec a deref addr t readonly page with
          | error e => rfl
          | ok f =>
              have hmap : Mem.shift a base <$> (Except.ok f : Res Mem) = .ok (f.shift a base) := rfl
              rw [hmap, bind_ok_left, bind_ok_left]
              dsimp only
              rw [follow_shift, efiMemGetSize_shift]
              cases efiMemGetSize a (follow last f) with
              | error e => rfl
              | ok size =>
                  -- the base goes through the sum, wrap or not
                  have haddr : ((base + addr) % a.word + size) % a.word =
                      (base + (addr + size) % a.word) % a.word := by
                    rw [Nat.mod_add_mod, Nat.add_mod_mod, Nat.add_assoc]
                  rw [bind_ok_left, bind_ok_left]
                  have hrest := ih (some (follow last f)) ((addr + size) % a.word)
                  rw [← haddr, Option.map_some] at hrest
                  rw [hrest]
                  cases byDictLoop a deref readonly page (some (follow last f))
                      ((addr + size) % a.word) rest with
                  | error e => rfl
                  | ok r => rfl

theorem castByDict_shift (self : Mem) (entries : List (Str × SpecObj)) :
    castByDict a deref (self.shift a base) entries =
      Mem.shift a base <$> castByDict a deref self entries := by
  have hself : self.shift a base = { self with
      addr := (base + self.addr) % a.word, fields := shiftFields a base self.fields } :=
    Mem.shift_eq self
  have hloop := byDictLoop_shift hd self.readonly self.page entries none self.addr
  unfold castByDict
  rw [hself]
  dsimp only
  rw [Option.map_none] at hloop
  rw [hloop]
  cases byDictLoop a deref self.readonly self.page none self.addr entries with
  | error e => rfl
  | ok r =>
      show Except.ok _ = Except.ok _
      rw [Mem.shift_eq, a.sub_shift]
      rfl

end Deref

theorem fillSize_shift (m : Mem) (len : Nat) :
    (m.shift a base).fillSize a len = Mem.shift a base <$> m.fillSize a len := by
  unfold Mem.fillSize
  rw [efiMemGetSize_shift]
  have hsize : (m.shift a base).size = m.size := by rw [Mem.shift_eq]
  rw [hsize]
  split
  · cases efiMemGetSize a m with
    | error e => rfl
    | ok size =>
        show Except.ok _ = Except.ok _
        rw [Mem.shift_eq, Mem.shift_eq]
  · rfl

/-- A cast does not depend on the address. -/
theorem efiMemTypecast_shift {ns : Namespace} (n : Nat) (m : Mem) (d : TypeDesc) :
    efiMemTypecast a ns n (m.shift a base) d = Mem.shift a base <$> efiMemTypecast a ns n m d := by
  induction n generalizing m d with
  | zero => rfl
  | succ n ih =>
      have hd : Shifts a base (castByName a ns n) := by
        intro m name
        unfold castByName
        cases resolveTypeByName ns n .none name with
        | error e => rfl
        | ok desc => exact ih m desc
      cases d with
      | none =>
          show Except.ok _ = Except.ok _
          rw [Mem.shift_eq, Mem.shift_eq]
      | dict entries => exact castByDict_shift hd m entries
      | other => rfl
      | str t =>
          rw [efiMemTypecast_str, efiMemTypecast_str, efiMemTypecastByStr, efiMemTypecastByStr,
            castByStr_shift hd]
          cases castByStr a (castByName a ns n) m (afterCount t) with
          | error e => rfl
          | ok m' => exact fillSize_shift m' _

theorem shifts_castByName {ns : Namespace} (n : Nat) : Shifts a base (castByName a ns n) := by
  intro m name
  unfold castByName
  cases resolveTypeByName ns n .none name with
  | error e => rfl
  | ok desc => exact efiMemTypecast_shift n m desc

/-- What is built at an address is what is built at zero, moved there. -/
theorem efiMemNew_shift {ns : Namespace} {n : Nat} (t : Option Str) (readonly pmem : Bool)
    (hbase : base < a.word) :
    efiMemNew a ns n base t readonly pmem =
      Mem.shift a base <$> efiMemNew a ns n 0 t readonly pmem := by
  have hzero : (base + 0) % a.word = base := Nat.mod_eq_of_lt hbase
  have hderef : Shifts a base (castByName a ns n) := shifts_castByName n
  cases t with
  | none =>
      have h := newN_shift hderef 0 0 none readonly pmem
      rw [hzero] at h
      exact h
  | some t =>
      have h := newBySpec_shift hderef 0 t readonly pmem
      rw [hzero] at h
      exact h

end Shift

end EfiLvgl.Uefi
