import EfiLvgl.Lib.Extent
import EfiLvgl.Uefi.Typecast

/-!
# EfiLvgl.Uefi.Layout — where the fields of a structure lie

A structure is described by an `OrderedDict` of texts: a letter with an optional
count, a bit field `T:n` of a base type, or a nested structure `O#name`. The loop of
`efi_mem_typecast_by_dict` gives each field an address and a bit offset.

`StructSpec` is the syntax of these descriptions, nested ones included, and
`StructSpec.entries` the dictionary that is handed to the code. `LaidOut` says what a
layout should be: no two fields share a bit, runs of bit fields are packed without
gaps, what follows a run starts behind its last unit, and `typesize` covers all.

The loop advances by whole units only once a unit is full, and it goes on counting
bits from the start of the *run* although the address has moved. So a layout is as
it should be exactly when every run of bit fields fills one unit (`RunsFill`) and the
structure fits the address space:

* `byDictLoop_placed` — the loop returns, and where it puts each field;
* `runsFill_of_packed` — a run that does not fill one unit breaks the layout;
* `consecutive_of_runsFill` — otherwise each field starts where the last one ends.
-/

namespace EfiLvgl.Uefi

/-! ## Descriptions -/

/-- An ordered list of fields. -/
inductive StructSpec where
  | nil
  | scalar (key count : Str) (letter : Char) (rest : StructSpec)
  | bits (key : Str) (letter : Char) (width : Str) (rest : StructSpec)
  | nested (key name : Str) (body rest : StructSpec)
deriving Repr

namespace StructSpec

/-- The `OrderedDict` that describes the structure. -/
def entries : StructSpec → List (Str × SpecObj)
  | .nil => []
  | .scalar key count letter rest => (key, .str (count ++ [letter])) :: rest.entries
  | .bits key letter width rest => (key, .str (letter :: ':' :: width)) :: rest.entries
  | .nested key name _ rest => (key, .str ('O' :: '#' :: name)) :: rest.entries

end StructSpec

/-- The value of a decimal number. -/
def decimal (ds : Str) : Nat := ds.foldl (fun n c => n * 10 + (c.toNat - '0'.toNat)) 0

/-- How many elements a count stands for. -/
def countOf (ds : Str) : Nat := if 0 < decimal ds then decimal ds else 1

/-- The base types of bit fields. -/
def baseLetter (c : Char) : Bool := ['B', 'H', 'I', 'L', 'N', 'Q'].contains c

namespace StructSpec

variable (a : Arch)

/-- The bits that each field is declared to have. -/
def widths : StructSpec → List Nat
  | .nil => []
  | .scalar _ count letter rest => 8 * (countOf count * typeSize a letter) :: rest.widths
  | .bits _ _ width rest => decimal width :: rest.widths
  | .nested _ _ body rest => body.widths.sum :: rest.widths

/-- The bits that all fields are declared to have. -/
def bitSize (s : StructSpec) : Nat := (s.widths a).sum

/-- A description that makes sense: scalar letters have a size, bit fields fit their
base type, and a run of bit fields has one base type and does not straddle two
units. `run` is the base of the run so far and its number of bits. -/
def WellFormed : Option (Char × Nat) → StructSpec → Prop
  | _, .nil => True
  | _, .scalar _ count letter rest =>
      (∀ c ∈ count, c.isDigit = true) ∧ letter.isAlpha = true ∧ 0 < typeSize a letter ∧
        WellFormed none rest
  | run, .bits _ letter width rest =>
      baseLetter letter = true ∧ (∀ c ∈ width, c.isDigit = true) ∧
        1 ≤ decimal width ∧ decimal width ≤ 8 * typeSize a letter ∧
        match run with
        | none => WellFormed (some (letter, decimal width)) rest
        | some (base, filled) =>
            letter = base ∧
              filled % (8 * typeSize a base) + decimal width ≤ 8 * typeSize a base ∧
              WellFormed (some (base, filled + decimal width)) rest
  | _, .nested _ _ body rest => WellFormed none body ∧ WellFormed none rest

/-- A run of bit fields that ends here has filled its unit. -/
def Closed (run : Option (Char × Nat)) : Prop :=
  ∀ r ∈ run, r.2 = 8 * typeSize a r.1

/-- Every maximal run of bit fields, also in nested structures, fills exactly one
unit of its base type. -/
def RunsFill : Option (Char × Nat) → StructSpec → Prop
  | run, .nil => Closed a run
  | run, .scalar _ _ _ rest => Closed a run ∧ RunsFill none rest
  | run, .bits _ letter width rest =>
      match run with
      | none => RunsFill (some (letter, decimal width)) rest
      | some (base, filled) =>
          filled + decimal width ≤ 8 * typeSize a base ∧
            RunsFill (some (base, filled + decimal width)) rest
  | run, .nested _ _ body rest => Closed a run ∧ RunsFill none body ∧ RunsFill none rest

/-- The names of nested structures are bound to their descriptions, directly or
through aliases. -/
def Bound (ns : Namespace) : StructSpec → Prop
  | .nil => True
  | .scalar _ _ _ rest => Bound ns rest
  | .bits _ _ _ rest => Bound ns rest
  | .nested _ name body rest =>
      (∃ k, ∀ n ≥ k, resolveTypeByName ns n .none ('#' :: name) = .ok (.dict body.entries)) ∧
        Bound ns body ∧ Bound ns rest

end StructSpec

open StructSpec

/-! ## Layouts -/

/-- The bit at which a field starts, counted from the start of the structure. -/
def bitPos (a : Arch) (base : Nat) (f : Mem) : Nat := 8 * a.sub f.addr base + f.bitoff

/-- The bits that the fields occupy. -/
def extents (a : Arch) (base : Nat) (s : StructSpec) (fs : List (Str × Mem)) : List Extent :=
  List.zipWith (fun w f => ⟨bitPos a base f.2, w⟩) (s.widths a) fs

/-- A run of bit fields: its first bit, its base type and its bits so far. -/
structure OpenRun where
  start : Nat
  letter : Char
  filled : Nat

/-- What comes behind a run starts behind the last unit that the run has touched. -/
def Behind (a : Arch) (run : Option OpenRun) (pos : Nat) : Prop :=
  ∀ r ∈ run, r.start + 8 * typeSize a r.letter *
    ((r.filled + 8 * typeSize a r.letter - 1) / (8 * typeSize a r.letter)) ≤ pos

/-- Runs of bit fields start at bit 0 of a unit and have no gaps, and what follows
them starts behind their last unit. -/
def Packed (a : Arch) (base : Nat) : Option OpenRun → StructSpec → List (Str × Mem) → Prop
  | _, .nil, _ => True
  | run, .scalar _ _ _ rest, f :: fs => Behind a run (bitPos a base f.2) ∧ Packed a base none rest fs
  | run, .nested _ _ _ rest, f :: fs => Behind a run (bitPos a base f.2) ∧ Packed a base none rest fs
  | run, .bits _ letter width rest, f :: fs =>
      match run with
      | none =>
          f.2.bitoff = 0 ∧
            Packed a base (some ⟨bitPos a base f.2, letter, decimal width⟩) rest fs
      | some r =>
          bitPos a base f.2 = r.start + r.filled ∧
            Packed a base (some { r with filled := r.filled + decimal width }) rest fs
  | _, _, [] => False

/-- The layout of one structure is as it should be. -/
structure Laid (a : Arch) (base typesize : Nat) (s : StructSpec) (fs : List (Str × Mem)) : Prop where
  apart : Extent.Apart (extents a base s fs)
  packed : Packed a base none s fs
  covered : ∀ e ∈ extents a base s fs, e.start + e.len ≤ 8 * typesize

/-- So are those of the structures nested in it. -/
def NestedLaid (a : Arch) : StructSpec → List (Str × Mem) → Prop
  | .nil, _ => True
  | .scalar _ _ _ rest, _ :: fs => NestedLaid a rest fs
  | .bits _ _ _ rest, _ :: fs => NestedLaid a rest fs
  | .nested _ _ body rest, f :: fs =>
      (∃ gs, f.2.fields = .dict gs ∧ Laid a f.2.addr f.2.typesize body gs ∧ NestedLaid a body gs) ∧
        NestedLaid a rest fs
  | _, [] => False

/-- The object has the fields of the structure, laid out as they should be. -/
def LaidOut (a : Arch) (s : StructSpec) (r : Mem) : Prop :=
  ∃ fs, r.fields = .dict fs ∧ Laid a r.addr r.typesize s fs ∧ NestedLaid a s fs

/-! ## Numbers in texts -/

theorem foldl_digit (a : Arch) (ds : Str) (num : Nat) :
    ds.foldl (digit a) (num % a.word) =
      ds.foldl (fun n c => n * 10 + (c.toNat - '0'.toNat)) num % a.word := by
  induction ds generalizing num with
  | nil => rfl
  | cons c ds ih =>
      have hc : digit a (num % a.word) c = (num * 10 + (c.toNat - '0'.toNat)) % a.word := by
        unfold digit
        rw [Nat.add_mod, Nat.mul_mod, Nat.mod_mod, ← Nat.mul_mod, ← Nat.add_mod]
      rw [List.foldl_cons, List.foldl_cons, hc]
      exact ih _

theorem foldl_digit_zero (a : Arch) (ds : Str) : ds.foldl (digit a) 0 = decimal ds % a.word := by
  have h := foldl_digit a ds 0
  rwa [Nat.zero_mod] at h

theorem takeWhile_count {ds : Str} {c : Char} (hds : ∀ d ∈ ds, d.isDigit = true)
    (hc : c.isAlpha = true) (rest : Str) :
    (ds ++ c :: rest).takeWhile Char.isDigit = ds := by
  rw [List.takeWhile_append_of_pos hds, List.takeWhile_cons_of_neg (not_isDigit_of_isAlpha hc),
    List.append_nil]

theorem afterCount_count {ds : Str} {c : Char} (hds : ∀ d ∈ ds, d.isDigit = true)
    (hc : c.isAlpha = true) (rest : Str) : afterCount (ds ++ c :: rest) = c :: rest := by
  rw [afterCount, List.dropWhile_append_of_pos hds,
    List.dropWhile_cons_of_neg (not_isDigit_of_isAlpha hc)]

theorem repeatCount_count {a : Arch} {ds : Str} {c : Char} (hds : ∀ d ∈ ds, d.isDigit = true)
    (hc : c.isAlpha = true) (rest : Str) :
    repeatCount a (ds ++ c :: rest) =
      if 0 < decimal ds % a.word then decimal ds % a.word else 1 := by
  rw [repeatCount, takeWhile_count hds hc, foldl_digit_zero]

/-! ## Building one field -/

/-- The bytes that a scalar field takes. -/
def scalarSize (a : Arch) (count : Str) (letter : Char) : Nat :=
  let len := if 0 < decimal count % a.word then decimal count % a.word else 1
  if 0 < typeSize a letter * len % a.word then typeSize a letter * len % a.word
  else typeSize a letter

section Fields

variable {a : Arch} {deref : Mem → Str → Res Mem} (addr : Nat) (readonly page : Bool)

theorem newBySpec_scalar {count : Str} {c : Char} (hds : ∀ d ∈ count, d.isDigit = true)
    (hc : c.isAlpha = true) (hO : c ≠ 'O') :
    ∃ f, newBySpec a deref addr (count ++ [c]) readonly page = .ok f ∧ f.addr = addr ∧
      f.bitoff = 0 ∧ f.bitnum = 0 ∧ efiMemGetSize a f = .ok (scalarSize a count c) := by
  rcases castByStr_letter a deref hc hO (blank addr readonly) with ⟨type, htype⟩
  rw [← afterCount_count hds hc []] at htype
  refine ⟨_, (newBySpec_ok a deref).mpr ⟨_, htype, rfl⟩, rfl, rfl, rfl, ?_⟩
  rw [repeatCount_count hds hc]
  rfl

theorem baseLetter_cases {c : Char} (h : baseLetter c = true) :
    c = 'B' ∨ c = 'H' ∨ c = 'I' ∨ c = 'L' ∨ c = 'N' ∨ c = 'Q' := by
  simpa [baseLetter] using h

/-- What is needed of a base type. -/
theorem baseLetter_spec {c : Char} (h : baseLetter c = true) (a : Arch) :
    plainLetter c = true ∧ c.isAlpha = true ∧ 1 ≤ typeSize a c ∧ typeSize a c ≤ 8 := by
  rcases baseLetter_cases h with rfl | rfl | rfl | rfl | rfl | rfl <;> cases a <;> decide

theorem newBySpec_bits {c : Char} {width : Str} (hc : baseLetter c = true)
    (hds : ∀ d ∈ width, d.isDigit = true) (h1 : 1 ≤ decimal width) (h2 : decimal width ≤ 64) :
    ∃ f, newBySpec a deref addr (c :: ':' :: width) readonly page = .ok f ∧ f.addr = addr ∧
      f.bitoff = 0 ∧ f.bitnum = decimal width ∧ f.typesize = typeSize a c := by
  rcases baseLetter_spec hc a with ⟨hp, hα, _, hle⟩
  have hnum : width.foldl (digit a) 0 = decimal width := by
    have := a.word_large
    rw [foldl_digit_zero, Nat.mod_eq_of_lt (by omega)]
  have hbits := castByStr_bits a deref hp hle hds (blank addr readonly)
  have hafter := @afterCount_count [] c (by simp) hα (':' :: width)
  rw [List.nil_append] at hafter
  rw [← hafter] at hbits
  refine ⟨_, (newBySpec_ok a deref).mpr ⟨_, hbits, rfl⟩, rfl, rfl, ?_, rfl⟩
  show (if 0 < width.foldl (digit a) 0 then width.foldl (digit a) 0 else 1) % 256 = decimal width
  rw [hnum, if_pos (by omega)]
  omega

/-- The bytes by which a bit field moves the address on. -/
theorem efiMemGetSize_bits {f : Mem} (hnum : 0 < f.bitnum) (hbits : f.bitoff + f.bitnum < 4096)
    (h1 : 1 ≤ f.typesize) (h8 : f.typesize ≤ 8) :
    efiMemGetSize a f = .ok ((f.bitoff + f.bitnum) / (8 * f.typesize) * f.typesize) := by
  have hw := a.word_large
  have hunit : f.typesize * 8 % a.word = 8 * f.typesize := by
    rw [Nat.mod_eq_of_lt (by omega), Nat.mul_comm]
  have hle : (f.bitoff + f.bitnum) / (8 * f.typesize) * f.typesize ≤ f.bitoff + f.bitnum := by
    calc (f.bitoff + f.bitnum) / (8 * f.typesize) * f.typesize
        ≤ (f.bitoff + f.bitnum) / (8 * f.typesize) * (8 * f.typesize) :=
          Nat.mul_le_mul_left _ (by omega)
      _ ≤ f.bitoff + f.bitnum := Nat.div_mul_le_self _ _
  rw [efiMemGetSize, if_neg (by omega), hunit, if_neg (by omega), Nat.mod_eq_of_lt (by omega)]

theorem Arch.sub_lt (a : Arch) (x y : Nat) : a.sub x y < a.word := Nat.mod_lt _ a.word_pos

/-- A nested structure is laid out at the address of its field. -/
theorem newBySpec_nested {name : Str} {entries : List (Str × SpecObj)}
    {deref' : Mem → Str → Res Mem} {y : Nat} {gs : List (Str × Mem)}
    (hderef : ∀ self, deref self ('#' :: name) = castByDict a deref' self entries)
    (hloop : byDictLoop a deref' readonly false none addr entries = .ok (y, gs)) :
    ∃ f, newBySpec a deref addr ('O' :: '#' :: name) readonly page = .ok f ∧ f.addr = addr ∧
      f.bitoff = 0 ∧ f.bitnum = 0 ∧ f.fields = .dict gs ∧ f.typesize = a.sub y addr ∧
      efiMemGetSize a f = .ok (a.sub y addr) := by
  have hcast : castByStr a deref (blank addr readonly) (afterCount ('O' :: '#' :: name)) =
      .ok { blank addr readonly with
        typespec := some ('O' :: '#' :: name)
        typesize := a.sub y addr
        fields := .dict gs } := by
    have hafter := @afterCount_count [] 'O' (by simp) (by decide) ('#' :: name)
    rw [List.nil_append] at hafter
    rw [hafter, castByStr, byStrLoop_object _ _ _ _ rfl, hderef, castByDict]
    change (byDictLoop a deref' readonly false none addr entries >>= _) >>= _ = _
    rw [hloop]
    rfl
  refine ⟨_, (newBySpec_ok a deref).mpr ⟨_, hcast, rfl⟩, rfl, rfl, rfl, rfl, rfl, ?_⟩
  have hcount := @repeatCount_count a [] 'O' (by simp) (by decide) ('#' :: name)
  rw [List.nil_append] at hcount
  have hlt := a.sub_lt y addr
  simp only [efiMemGetSize, Mem.sized, hcount, decimal, List.foldl_nil, Nat.zero_mod,
    Nat.lt_irrefl, if_false, Nat.mul_one, Nat.mod_eq_of_lt hlt, ite_self]
  rfl

end Fields

/-! ## The loop -/

/-- The bits of the run that the last field belongs to. -/
def pending (last : Option Mem) : Option Nat :=
  last.bind fun l => if 0 < l.bitnum then some (l.bitoff + l.bitnum) else none

/-- Where the loop puts the fields: `prev` are the bits of the run before, `x` the
address behind the last field. -/
def Placed (a : Arch) : Option Nat → Nat → StructSpec → List (Str × Mem) → Nat → Prop
  | _, addr, .nil, fs, x => fs = [] ∧ x = addr
  | _, addr, .scalar _ count letter rest, fs, x =>
      ∃ f fs', fs = f :: fs' ∧ f.2.addr = addr ∧ f.2.bitoff = 0 ∧
        Placed a none ((addr + scalarSize a count letter) % a.word) rest fs' x
  | prev, addr, .bits _ letter width rest, fs, x =>
      ∃ f fs', fs = f :: fs' ∧ f.2.addr = addr ∧ f.2.bitoff = prev.getD 0 % 256 ∧
        Placed a (some (f.2.bitoff + decimal width))
          ((addr + (f.2.bitoff + decimal width) / (8 * typeSize a letter) * typeSize a letter) %
            a.word) rest fs' x
  | _, addr, .nested _ _ body rest, fs, x =>
      ∃ f fs' gs y, fs = f :: fs' ∧ f.2.addr = addr ∧ f.2.bitoff = 0 ∧ f.2.fields = .dict gs ∧
        f.2.typesize = a.sub y addr ∧ Placed a none addr body gs y ∧
        Placed a none ((addr + a.sub y addr) % a.word) rest fs' x

/-- A field that is no bit field stays where it is. -/
theorem follow_scalar {last : Option Mem} {f : Mem} (h : f.bitnum = 0) : follow last f = f := by
  cases last with
  | none => rfl
  | some l => simp [follow, h]

theorem follow_bits {last : Option Mem} {f : Mem} (h : 0 < f.bitnum) (h0 : f.bitoff = 0) :
    follow last f = { f with bitoff := (pending last).getD 0 % 256 } := by
  cases last with
  | none =>
      cases f
      simp_all [follow, pending]
  | some l =>
      by_cases hl : 0 < l.bitnum
      · simp [follow, pending, h, hl]
      · cases f
        simp_all [follow, pending]

theorem pending_scalar {f : Mem} (h : f.bitnum = 0) : pending (some f) = none := by
  simp [pending, h]

theorem pending_bits {f : Mem} (h : 0 < f.bitnum) :
    pending (some f) = some (f.bitoff + f.bitnum) := by
  simp [pending, h]

/-- One turn of the loop. -/
theorem byDictLoop_cons {a : Arch} {deref : Mem → Str → Res Mem} {readonly page : Bool}
    {last : Option Mem} {addr size x : Nat} (key : Str) {t : Str} {rest : List (Str × SpecObj)}
    {f g : Mem} {fs : List (Str × Mem)} (hf : newBySpec a deref addr t readonly page = .ok f)
    (hfol : follow last f = g) (hs : efiMemGetSize a g = .ok size)
    (hr : byDictLoop a deref readonly page (some g) ((addr + size) % a.word) rest =
      .ok (x, fs)) :
    byDictLoop a deref readonly page last addr ((key, .str t) :: rest) =
      .ok (x, (key, g) :: fs) := by
  rw [byDictLoop]
  simp only [strGetStr, bind_ok_left, hf, hfol, hs, hr]

/-- With enough fuel the loop returns, and puts the fields as `Placed` says. -/
theorem byDictLoop_placed (a : Arch) (ns : Namespace) (s : StructSpec) :
    ∀ (run : Option (Char × Nat)), WellFormed a run s → Bound ns s →
      ∃ k, ∀ n ≥ k, ∀ (readonly page : Bool) (last : Option Mem) (addr : Nat), ∃ x fs,
        byDictLoop a (castByName a ns n) readonly page last addr s.entries = .ok (x, fs) ∧
          Placed a (pending last) addr s fs x := by
  induction s with
  | nil =>
      intro run _ _
      exact ⟨0, fun n _ readonly page last addr => ⟨addr, [], rfl, rfl, rfl⟩⟩
  | scalar key count letter rest ih =>
      intro run hwf hb
      rcases hwf with ⟨hds, hα, hsize, hrest⟩
      rcases ih none hrest hb with ⟨k, hk⟩
      refine ⟨k, fun n hn readonly page last addr => ?_⟩
      have hO : letter ≠ 'O' := by
        rintro rfl
        simp [typeSize] at hsize
      rcases newBySpec_scalar addr readonly page hds hα hO with ⟨f, hf, haddr, hoff, hnum, hget⟩
      rcases hk n hn readonly page (some f) ((addr + scalarSize a count letter) % a.word) with
        ⟨x, fs, hloop, hpl⟩
      rw [pending_scalar hnum] at hpl
      exact ⟨x, (key, f) :: fs, byDictLoop_cons key hf (follow_scalar hnum) hget hloop,
        (key, f), fs, rfl, haddr, hoff, hpl⟩
  | bits key letter width rest ih =>
      intro run hwf hb
      rcases hwf with ⟨hbase, hds, h1, h2, hwf⟩
      rcases baseLetter_spec hbase a with ⟨-, -, hpos, hle⟩
      have hrest : ∃ run', WellFormed a run' rest := by
        cases run with
        | none => exact ⟨_, hwf⟩
        | some r => exact ⟨_, hwf.2.2⟩
      rcases hrest with ⟨run', hrest⟩
      rcases ih run' hrest hb with ⟨k, hk⟩
      refine ⟨k, fun n hn readonly page last addr => ?_⟩
      rcases @newBySpec_bits a (castByName a ns n) addr readonly page letter width hbase hds h1
        (by omega) with ⟨f, hf, haddr, hoff, hnum, htype⟩
      have hfol := @follow_bits last f (by omega) hoff
      -- the offset is eight bits wide, so that the sum stays small
      have hget : efiMemGetSize a { f with bitoff := (pending last).getD 0 % 256 } = .ok _ :=
        efiMemGetSize_bits (by simp only; omega)
          (by simp only; have := Nat.mod_lt ((pending last).getD 0) (show 0 < 256 by omega); omega)
          (by simp only; omega) (by simp only; omega)
      rcases hk n hn readonly page (some { f with bitoff := (pending last).getD 0 % 256 }) _ with
        ⟨x, fs, hloop, hpl⟩
      refine ⟨x, (key, _) :: fs, byDictLoop_cons key hf hfol hget hloop, (key, _), fs, rfl, haddr,
        rfl, ?_⟩
      rw [pending_bits (by simp only; omega)] at hpl
      simpa only [hnum, htype] using hpl
  | nested key name body rest ihb ihr =>
      intro run hwf hb
      rcases hwf with ⟨hbody, hrest⟩
      rcases hb with ⟨⟨j, hj⟩, hbb, hbr⟩
      rcases ihb none hbody hbb with ⟨kb, hkb⟩
      rcases ihr none hrest hbr with ⟨kr, hkr⟩
      -- the alias costs one level of fuel
      refine ⟨max (kb + 1) (max kr j), fun n hn readonly page last addr => ?_⟩
      rcases Nat.exists_eq_succ_of_ne_zero (show n ≠ 0 by omega) with ⟨n', rfl⟩
      rcases hkb n' (by omega) readonly false none addr with ⟨y, gs, hgs, hplb⟩
      have hderef : ∀ self, castByName a ns (n' + 1) self ('#' :: name) =
          castByDict a (castByName a ns n') self body.entries := by
        intro self
        rw [castByName, hj (n' + 1) (by omega)]
        rfl
      rcases newBySpec_nested addr readonly page hderef hgs with
        ⟨f, hf, haddr, hoff, hnum, hfields, htype, hget⟩
      rcases hkr (n' + 1) (by omega) readonly page (some f) ((addr + a.sub y addr) % a.word) with
        ⟨x, fs, hloop, hpl⟩
      rw [pending_scalar hnum] at hpl
      exact ⟨x, (key, f) :: fs, byDictLoop_cons key hf (follow_scalar hnum) hget hloop,
        (key, f), fs, gs, y, rfl, haddr, hoff, hfields, htype, hplb, hpl⟩

/-! ## Following the runs -/

theorem Arch.sub_add (a : Arch) (x s b : Nat) :
    a.sub ((x + s) % a.word) b = (a.sub x b + s) % a.word := by
  simp only [Arch.sub, Nat.mod_add_mod, Nat.add_right_comm]

theorem Arch.sub_self (a : Arch) (x : Nat) : a.sub x x = 0 := by
  have hx := Nat.mod_lt x a.word_pos
  have hdm := Nat.div_add_mod x a.word
  have heq : x + (a.word - x % a.word) = a.word * (x / a.word) + a.word := by omega
  rw [Arch.sub, heq, Nat.add_mod_right, Nat.mul_mod_right]

/-- Bits that start at an address, and the address behind as many bytes. -/
theorem Arch.sub_next (a : Arch) {x b pos n : Nat} (hpos : pos = 8 * a.sub x b)
    (hlt : pos + 8 * n < 8 * a.word) : pos + 8 * n = 8 * a.sub ((x + n) % a.word) b := by
  rw [Arch.sub_add, Nat.mod_eq_of_lt (by omega)]
  omega

/-- A step that is not a multiple of the word moves an address. -/
theorem Arch.sub_add_ne (a : Arch) {s : Nat} (x b : Nat) (h0 : 0 < s) (h1 : s < a.word) :
    a.sub ((x + s) % a.word) b ≠ a.sub x b := by
  have hlt := a.sub_lt x b
  rw [Arch.sub_add]
  intro h
  by_cases hw : a.sub x b + s < a.word
  · rw [Nat.mod_eq_of_lt hw] at h
    omega
  · rw [Nat.mod_eq_sub_mod (by omega), Nat.mod_eq_of_lt (by omega)] at h
    omega

/-- The states of the description's run, the layout's run and the loop at one address
belong together, as long as no run has gone beyond its first unit; `pos` is the bit
behind the last field of the run. -/
inductive Sync (a : Arch) (base : Nat) :
    Option (Char × Nat) → Option OpenRun → Option Nat → Nat → Nat → Prop where
  | idle {addr pos : Nat} : Sync a base none none none addr pos
  | partly {c : Char} {k addr : Nat} (hc : baseLetter c = true) (hk : 0 < k)
      (hlt : k < 8 * typeSize a c) :
      Sync a base (some (c, k)) (some ⟨8 * a.sub addr base, c, k⟩) (some k) addr
        (8 * a.sub addr base + k)
  | full {c : Char} {addr addr' : Nat} (hc : baseLetter c = true)
      (haddr : addr' = (addr + typeSize a c) % a.word) :
      Sync a base (some (c, 8 * typeSize a c)) (some ⟨8 * a.sub addr base, c, 8 * typeSize a c⟩)
        (some (8 * typeSize a c)) addr' (8 * a.sub addr base + 8 * typeSize a c)

section Runs

variable {a : Arch} {base : Nat}

/-- The run after a bit field that still fits the first unit. -/
theorem Sync.extend {c : Char} {k addr : Nat} (hc : baseLetter c = true) (hk : 0 < k)
    (hle : k ≤ 8 * typeSize a c) :
    Sync a base (some (c, k)) (some ⟨8 * a.sub addr base, c, k⟩) (some k)
      ((addr + k / (8 * typeSize a c) * typeSize a c) % a.word) (8 * a.sub addr base + k) := by
  rcases Nat.lt_or_eq_of_le hle with hlt | rfl
  · have hsub : a.sub ((addr + k / (8 * typeSize a c) * typeSize a c) % a.word) base =
        a.sub addr base := by
      rw [Nat.div_eq_of_lt hlt, Nat.zero_mul, Arch.sub_add, Nat.add_zero,
        Nat.mod_eq_of_lt (a.sub_lt addr base)]
    have h := @Sync.partly a base c k ((addr + k / (8 * typeSize a c) * typeSize a c) % a.word)
      hc hk hlt
    rwa [hsub] at h
  · refine Sync.full hc ?_
    rw [Nat.div_self (by omega), Nat.one_mul]

/-- Behind a closed run or no run the loop stands at a unit's end. -/
theorem Sync.closed_or {st : Option (Char × Nat)} {run : Option OpenRun} {prev : Option Nat}
    {addr pos : Nat} (h : Sync a base st run prev addr pos) :
    Closed a st ∨ ∃ c k, st = some (c, k) ∧ run = some ⟨8 * a.sub addr base, c, k⟩ ∧ 0 < k ∧
      k < 8 * typeSize a c ∧ pos = 8 * a.sub addr base + k := by
  cases h with
  | idle => exact .inl (by simp [Closed])
  | partly hc hk hlt => exact .inr ⟨_, _, rfl, rfl, hk, hlt, rfl⟩
  | full hc haddr => exact .inl (by simp [Closed])

/-- A field behind a run that has not filled its unit does not start behind it. -/
theorem Sync.closed_of_behind {st : Option (Char × Nat)} {run : Option OpenRun}
    {prev : Option Nat} {addr pos : Nat} {f : Mem} (h : Sync a base st run prev addr pos)
    (haddr : f.addr = addr) (hoff : f.bitoff = 0) (hb : Behind a run (bitPos a base f)) :
    Closed a st := by
  rcases h.closed_or with hcl | ⟨c, k, -, hrun, hk, hlt, -⟩
  · exact hcl
  · have hbehind := hb _ hrun
    rw [bitPos, haddr, hoff] at hbehind
    dsimp only at hbehind
    have hone : 1 ≤ (k + 8 * typeSize a c - 1) / (8 * typeSize a c) := by
      rw [Nat.le_div_iff_mul_le (by omega)]
      omega
    have := Nat.mul_le_mul_left (8 * typeSize a c) hone
    omega

/-- The next bit field of a run that is packed still lies in the first unit. -/
theorem Sync.fits {c : Char} {k n addr pos : Nat} {run : Option OpenRun} {prev : Option Nat}
    {f : Mem} (h : Sync a base (some (c, k)) run prev addr pos) (haddr : f.addr = addr)
    (hoff : f.bitoff = prev.getD 0 % 256) (hwf : k % (8 * typeSize a c) + n ≤ 8 * typeSize a c)
    (hpos : ∀ r ∈ run, bitPos a base f = r.start + r.filled) :
    baseLetter c = true ∧ 0 < k ∧ k + n ≤ 8 * typeSize a c ∧ prev = some k ∧
      run = some ⟨8 * a.sub addr base, c, k⟩ := by
  cases h with
  | partly hc hk hlt =>
      rw [Nat.mod_eq_of_lt hlt] at hwf
      exact ⟨hc, hk, hwf, rfl, rfl⟩
  | full hc haddr' =>
      -- the address has moved on, and so has the bit offset
      rcases baseLetter_spec hc a with ⟨-, -, h1, h8⟩
      have hw := a.word_large
      have hp := hpos _ rfl
      rw [bitPos, haddr, hoff, Option.getD_some, Nat.mod_eq_of_lt (by omega)] at hp
      rename_i addr₀
      have hne := a.sub_add_ne addr₀ base (show 0 < typeSize a c by omega)
        (show typeSize a c < a.word by omega)
      rw [← haddr'] at hne
      dsimp only at hp
      omega

theorem extents_cons {s : StructSpec} {w : Nat} {ws : List Nat} (hw : s.widths a = w :: ws)
    (f : Str × Mem) (fs : List (Str × Mem)) :
    extents a base s (f :: fs) =
      ⟨bitPos a base f.2, w⟩ :: List.zipWith (fun w f => ⟨bitPos a base f.2, w⟩) ws fs := by
  rw [extents, hw]
  rfl

/-- A field that starts a unit. -/
theorem bitPos_of_start {f : Mem} {addr : Nat} (haddr : f.addr = addr) (hoff : f.bitoff = 0) :
    bitPos a base f = 8 * a.sub addr base := by
  rw [bitPos, haddr, hoff, Nat.add_zero]

/-- A field in front of fields that follow it closely. -/
theorem extents_eq_consecutive {s rest : StructSpec} {w pos : Nat}
    (hw : s.widths a = w :: rest.widths a) {f : Str × Mem} {fs : List (Str × Mem)}
    (hp : bitPos a base f.2 = pos)
    (hext : extents a base rest fs = Extent.consecutive (pos + w) (rest.widths a)) :
    extents a base s (f :: fs) = Extent.consecutive pos (s.widths a) := by
  rw [extents_cons hw, hp, hw, Extent.consecutive_cons]
  exact congrArg _ hext

/-- In a layout that is packed and covered every run fills exactly one unit. -/
theorem runsFill_of_packed (s : StructSpec) :
    ∀ {base : Nat} {st : Option (Char × Nat)} {run : Option OpenRun} {prev : Option Nat}
      {addr pos x : Nat} {fs : List (Str × Mem)}, WellFormed a st s → Placed a prev addr s fs x →
      Packed a base run s fs → (∀ e ∈ extents a base s fs, e.start + e.len ≤ 8 * a.sub x base) →
      NestedLaid a s fs → Sync a base st run prev addr pos → (st ≠ none → pos ≤ 8 * a.sub x base) →
      RunsFill a st s := by
  induction s with
  | nil =>
      intro base st run prev addr pos x fs _ hpl _ _ _ hsync hcov
      rcases hpl with ⟨-, rfl⟩
      rcases hsync.closed_or with hcl | ⟨c, k, rfl, -, hk, -, hpos⟩
      · exact hcl
      · -- the unit of the last run is not covered
        have := hcov (by simp)
        omega
  | scalar key count letter rest ih =>
      intro base st run prev addr pos x fs hwf hpl hpk hcov hnest hsync _
      rcases hpl with ⟨f, fs', rfl, haddr, hoff, hpl⟩
      rcases hwf with ⟨-, -, -, hwf⟩
      rcases hpk with ⟨hbehind, hpk⟩
      -- a scalar stands behind the run before it, which has to be closed
      refine ⟨hsync.closed_of_behind haddr hoff hbehind, ?_⟩
      refine ih hwf hpl hpk (fun e he => hcov e ?_) hnest (@Sync.idle a _ _ 0) (by simp)
      exact List.mem_cons_of_mem _ he
  | bits key letter width rest ih =>
      intro base st run prev addr pos x fs hwf hpl hpk hcov hnest hsync _
      rcases hpl with ⟨f, fs', rfl, haddr, hoff, hpl⟩
      rcases hwf with ⟨hbase, -, h1, h2, hwf⟩
      rcases baseLetter_spec hbase a with ⟨-, -, -, hts⟩
      have hfirst : bitPos a base f.2 + decimal width ≤ 8 * a.sub x base :=
        hcov ⟨bitPos a base f.2, decimal width⟩ (List.mem_cons_self ..)
      have hrest : ∀ e ∈ extents a base rest fs', e.start + e.len ≤ 8 * a.sub x base :=
        fun e he => hcov e (List.mem_cons_of_mem _ he)
      cases st with
      | none =>
          -- a field opens a run
          cases hsync
          rw [Option.getD_none, Nat.zero_mod] at hoff
          rw [hoff, Nat.zero_add] at hpl
          rcases hpk with ⟨-, hpk⟩
          have hpos : bitPos a base f.2 = 8 * a.sub addr base := bitPos_of_start haddr hoff
          rw [hpos] at hpk hfirst
          exact ih hwf hpl hpk hrest hnest (Sync.extend hbase (by omega) h2) (fun _ => hfirst)
      | some r =>
          rcases r with ⟨c, k⟩
          -- a field goes on with the run, which is in step with the unit
          rcases hwf with ⟨rfl, hstraddle, hwf⟩
          cases run with
          | none => cases hsync
          | some r =>
              rcases hpk with ⟨hpos, hpk⟩
              rcases hsync.fits haddr hoff hstraddle (by
                intro r' hr'
                cases hr'
                exact hpos) with ⟨-, hk, hfit, rfl, hr⟩
              cases hr
              rw [Option.getD_some, Nat.mod_eq_of_lt (by omega)] at hoff
              rw [hoff] at hpl
              rw [hpos] at hfirst
              refine ⟨hfit, ih hwf hpl hpk hrest hnest (Sync.extend hbase (by omega) hfit) fun _ => ?_⟩
              dsimp only at hfirst
              omega
  | nested key name body rest ihb ihr =>
      intro base st run prev addr pos x fs hwf hpl hpk hcov hnest hsync _
      rcases hpl with ⟨f, fs', gs, y, rfl, haddr, hoff, hfields, htype, hplb, hpl⟩
      rcases hwf with ⟨hwfb, hwfr⟩
      rcases hpk with ⟨hbehind, hpk⟩
      rcases hnest with ⟨⟨gs', hgs', hlaid, hnestb⟩, hnest⟩
      rw [hfields, Fields.dict.injEq] at hgs'
      subst hgs'
      rw [haddr, htype] at hlaid
      refine ⟨hsync.closed_of_behind haddr hoff hbehind, ?_, ?_⟩
      · exact ihb hwfb hplb hlaid.packed hlaid.covered hnestb (@Sync.idle a _ _ 0) (by simp)
      · refine ihr hwfr hpl hpk (fun e he => hcov e ?_) hnest (@Sync.idle a _ _ 0) (by simp)
        exact List.mem_cons_of_mem _ he

/-! ## Full runs -/

theorem scalarSize_eq {count : Str} {c : Char} (hc : 0 < typeSize a c)
    (h : countOf count * typeSize a c < a.word) :
    scalarSize a count c = countOf count * typeSize a c := by
  have hw := a.word_pos
  have hle : countOf count ≤ countOf count * typeSize a c := Nat.le_mul_of_pos_right _ hc
  have hlen : (if 0 < decimal count % a.word then decimal count % a.word else 1) = countOf count := by
    unfold countOf at hle h ⊢
    by_cases hd : 0 < decimal count
    · rw [if_pos hd] at hle h ⊢
      rw [Nat.mod_eq_of_lt (by omega), if_pos hd]
    · rw [if_neg hd, Nat.eq_zero_of_not_pos hd, Nat.zero_mod]
      rfl
  have hpos : 0 < countOf count := by
    unfold countOf
    split <;> omega
  unfold scalarSize
  simp only [hlen, Nat.mul_comm (typeSize a c), Nat.mod_eq_of_lt h]
  exact if_pos (Nat.mul_pos hpos hc)

/-- Behind a run that has filled its unit the next field may start. -/
theorem Sync.behind {st : Option (Char × Nat)} {run : Option OpenRun} {prev : Option Nat}
    {addr pos : Nat} (h : Sync a base st run prev addr pos) (hcl : Closed a st) :
    Behind a run pos := by
  cases h with
  | idle => simp [Behind]
  | partly hc hk hlt =>
      have := hcl _ rfl
      dsimp only at this
      omega
  | @full c addr addr' hc haddr =>
      intro r hr
      cases hr
      rcases baseLetter_spec hc a with ⟨-, -, h1, -⟩
      have hone : (8 * typeSize a c + 8 * typeSize a c - 1) / (8 * typeSize a c) = 1 := by
        apply Nat.div_eq_of_lt_le <;> omega
      dsimp only
      rw [hone, Nat.mul_one]

/-- A unit that is filled moves the address by its size. -/
theorem closed_pos {c : Char} {k addr : Nat} (hc : baseLetter c = true)
    (hlt : 8 * a.sub addr base + k < 8 * a.word) (hcl : Closed a (some (c, k))) :
    8 * a.sub addr base + k =
      8 * a.sub ((addr + k / (8 * typeSize a c) * typeSize a c) % a.word) base := by
  have hk : k = 8 * typeSize a c := hcl _ rfl
  subst hk
  rcases baseLetter_spec hc a with ⟨-, -, h1, -⟩
  rw [Nat.div_self (by omega), Nat.one_mul]
  exact a.sub_next rfl hlt

/-- When every run fills one unit, each field starts where the one before ends. -/
theorem consecutive_of_runsFill (s : StructSpec) :
    ∀ {base : Nat} {st : Option (Char × Nat)} {run : Option OpenRun} {prev : Option Nat}
      {addr pos x : Nat} {fs : List (Str × Mem)}, WellFormed a st s → Placed a prev addr s fs x →
      RunsFill a st s → pos + s.bitSize a < 8 * a.word → Sync a base st run prev addr pos →
      (Closed a st → pos = 8 * a.sub addr base) →
      extents a base s fs = Extent.consecutive pos (s.widths a) ∧ Packed a base run s fs ∧
        8 * a.sub x base = pos + s.bitSize a ∧ NestedLaid a s fs := by
  induction s with
  | nil =>
      intro base st run prev addr pos x fs _ hpl hfill _ _ hpos
      rcases hpl with ⟨rfl, rfl⟩
      exact ⟨rfl, trivial, (hpos hfill).symm, trivial⟩
  | scalar key count letter rest ih =>
      intro base st run prev addr pos x fs hwf hpl hfill hlt hsync hpos
      rcases hpl with ⟨f, fs', rfl, haddr, hoff, hpl⟩
      rcases hwf with ⟨-, -, hts, hwf⟩
      rcases hfill with ⟨hcl, hfill⟩
      have hp : bitPos a base f.2 = pos := (bitPos_of_start haddr hoff).trans (hpos hcl).symm
      have hsum : (StructSpec.scalar key count letter rest).bitSize a =
          8 * (countOf count * typeSize a letter) + rest.bitSize a := by
        simp [bitSize, widths]
      have hsz := scalarSize_eq hts (show countOf count * typeSize a letter < a.word by omega)
      have hnext : pos + 8 * (countOf count * typeSize a letter) =
          8 * a.sub ((addr + scalarSize a count letter) % a.word) base := by
        rw [hsz]
        exact a.sub_next (hpos hcl) (by omega)
      rcases ih hwf hpl hfill (by omega) (@Sync.idle a base _ _) (fun _ => hnext) with
        ⟨hext, hpk, hx, hnest⟩
      exact ⟨extents_eq_consecutive rfl hp hext, ⟨hp ▸ hsync.behind hcl, hpk⟩, by omega, hnest⟩
  | bits key letter width rest ih =>
      intro base st run prev addr pos x fs hwf hpl hfill hlt hsync hpos
      rcases hpl with ⟨f, fs', rfl, haddr, hoff, hpl⟩
      rcases hwf with ⟨hbase, -, h1, h2, hwf⟩
      have hsum : (StructSpec.bits key letter width rest).bitSize a =
          decimal width + rest.bitSize a := by
        simp [bitSize, widths]
      cases st with
      | none =>
          have hpos := hpos (by simp [Closed])
          cases hsync
          rw [Option.getD_none, Nat.zero_mod] at hoff
          rw [hoff, Nat.zero_add] at hpl
          have hp : bitPos a base f.2 = 8 * a.sub addr base := bitPos_of_start haddr hoff
          rcases ih hwf hpl hfill (by omega) (@Sync.extend a base _ _ _ hbase (by omega) h2)
            (closed_pos hbase (by omega)) with ⟨hext, hpk, hx, hnest⟩
          rw [hpos]
          exact ⟨extents_eq_consecutive rfl hp hext, ⟨hoff, hp.symm ▸ hpk⟩, by omega, hnest⟩
      | some r =>
          rcases r with ⟨c, k⟩
          rcases hwf with ⟨rfl, -, hwf⟩
          rcases hfill with ⟨hfit, hfill⟩
          -- a full unit has no room for another bit field
          cases hsync with
          | full => omega
          | partly hc hk hlt' =>
              rcases baseLetter_spec hbase a with ⟨-, -, -, h8⟩
              rw [Option.getD_some, Nat.mod_eq_of_lt (by omega)] at hoff
              rw [hoff] at hpl
              have hp : bitPos a base f.2 = 8 * a.sub addr base + k := by
                rw [bitPos, haddr, hoff]
              rcases ih hwf hpl hfill (by omega) (@Sync.extend a base _ _ _ hbase (by omega) hfit)
                (closed_pos hbase (by omega)) with ⟨hext, hpk, hx, hnest⟩
              rw [← Nat.add_assoc] at hext
              exact ⟨extents_eq_consecutive rfl hp hext, ⟨hp, hpk⟩, by omega, hnest⟩
  | nested key name body rest ihb ihr =>
      intro base st run prev addr pos x fs hwf hpl hfill hlt hsync hpos
      rcases hpl with ⟨f, fs', gs, y, rfl, haddr, hoff, hfields, htype, hplb, hpl⟩
      rcases hwf with ⟨hwfb, hwfr⟩
      rcases hfill with ⟨hcl, hfillb, hfillr⟩
      have hp : bitPos a base f.2 = pos := (bitPos_of_start haddr hoff).trans (hpos hcl).symm
      have hsum : (StructSpec.nested key name body rest).bitSize a =
          body.bitSize a + rest.bitSize a := by
        simp [bitSize, widths]
      -- inside, positions count from the field's own address
      have hbody := ihb hwfb hplb hfillb (show 0 + body.bitSize a < 8 * a.word by omega)
        (@Sync.idle a addr _ _) (fun _ => by rw [Arch.sub_self])
      rcases hbody with ⟨hextb, hpkb, hy, hnestb⟩
      have hlaid : Laid a f.2.addr f.2.typesize body gs := by
        rw [haddr, htype]
        refine ⟨?_, hpkb, ?_⟩
        · rw [hextb]
          exact Extent.consecutive_disjoint _ _
        · rw [hextb, hy]
          intro e he
          exact (Extent.mem_consecutive he).2
      have hnext : pos + body.bitSize a =
          8 * a.sub ((addr + a.sub y addr) % a.word) base := by
        have hbytes : body.bitSize a = 8 * a.sub y addr := by omega
        rw [hbytes]
        exact a.sub_next (hpos hcl) (by omega)
      rcases ihr hwfr hpl hfillr (by omega) (@Sync.idle a base _ _) (fun _ => hnext) with
        ⟨hext, hpk, hx, hnest⟩
      exact ⟨extents_eq_consecutive rfl hp hext, ⟨hp ▸ hsync.behind hcl, hpk⟩, by omega,
        ⟨gs, hfields, hlaid, hnestb⟩, hnest⟩

end Runs

/-! ## The whole structure -/

theorem extents_len {a : Arch} {base : Nat} (s : StructSpec) :
    ∀ {prev : Option Nat} {addr x : Nat} {fs : List (Str × Mem)}, Placed a prev addr s fs x →
      (extents a base s fs).map Extent.len = s.widths a := by
  induction s with
  | nil =>
      intro prev addr x fs _
      rfl
  | scalar key count letter rest ih =>
      rintro prev addr x fs ⟨f, fs', rfl, -, -, hpl⟩
      rw [extents_cons rfl, List.map_cons]
      exact congrArg _ (ih hpl)
  | bits key letter width rest ih =>
      rintro prev addr x fs ⟨f, fs', rfl, -, -, hpl⟩
      rw [extents_cons rfl, List.map_cons]
      exact congrArg _ (ih hpl)
  | nested key name body rest _ ih =>
      rintro prev addr x fs ⟨f, fs', gs, y, rfl, -, -, -, -, -, hpl⟩
      rw [extents_cons rfl, List.map_cons]
      exact congrArg _ (ih hpl)

/-- What the loop has placed is laid out as it should be exactly when every run fills
one unit and all fits the address space. -/
theorem laid_iff {a : Arch} {addr x : Nat} {s : StructSpec} {fs : List (Str × Mem)}
    (hwf : WellFormed a none s) (hpl : Placed a none addr s fs x) :
    (Laid a addr (a.sub x addr) s fs ∧ NestedLaid a s fs) ↔
      RunsFill a none s ∧ s.bitSize a < 8 * a.word := by
  constructor
  · rintro ⟨hlaid, hnest⟩
    constructor
    · exact runsFill_of_packed s hwf hpl hlaid.packed hlaid.covered hnest (@Sync.idle a _ _ 0)
        (by simp)
    · have hsum := Extent.sum_len_le hlaid.apart hlaid.covered
      rw [extents_len s hpl] at hsum
      have := a.sub_lt x addr
      unfold bitSize
      omega
  · rintro ⟨hfill, hlt⟩
    rcases consecutive_of_runsFill s hwf hpl hfill (show 0 + s.bitSize a < 8 * a.word by omega)
      (@Sync.idle a addr _ _) (fun _ => by rw [Arch.sub_self]) with ⟨hext, hpk, hx, hnest⟩
    refine ⟨⟨?_, hpk, ?_⟩, hnest⟩
    · rw [hext]
      exact Extent.consecutive_disjoint _ _
    · rw [hext, hx]
      intro e he
      exact (Extent.mem_consecutive he).2

/-- What `efi_mem_typecast_by_dict` returns. -/
theorem castByDict_placed (a : Arch) (ns : Namespace) {s : StructSpec}
    (hwf : WellFormed a none s) (hb : Bound ns s) :
    ∃ k, ∀ n ≥ k, ∀ self : Mem, ∃ x fs, Placed a none self.addr s fs x ∧
      efiMemTypecastByDict a ns n self s.entries =
        .ok { self with typesize := a.sub x self.addr, fields := .dict fs } := by
  rcases byDictLoop_placed a ns s none hwf hb with ⟨k, hk⟩
  refine ⟨k, fun n hn self => ?_⟩
  rcases hk n hn self.readonly self.page none self.addr with ⟨x, fs, hloop, hpl⟩
  refine ⟨x, fs, hpl, ?_⟩
  rw [efiMemTypecastByDict, castByDict, hloop]
  rfl

/-- For every description that makes sense the cast returns, and the layout is as it
should be if and only if every maximal run of bit fields, also in nested structures,
fills exactly one unit and the structure is smaller than the address space. -/
theorem struct_laid_out_iff (a : Arch) (ns : Namespace) (s : StructSpec)
    (hwf : WellFormed a none s) (hb : Bound ns s) :
    ∃ k, ∀ n ≥ k, ∀ self : Mem, ∃ r, efiMemTypecastByDict a ns n self s.entries = .ok r ∧
      (LaidOut a s r ↔ RunsFill a none s ∧ s.bitSize a < 8 * a.word) := by
  rcases castByDict_placed a ns hwf hb with ⟨k, hk⟩
  refine ⟨k, fun n hn self => ?_⟩
  rcases hk n hn self with ⟨x, fs, hpl, hr⟩
  refine ⟨_, hr, ?_⟩
  rw [← laid_iff hwf hpl]
  constructor
  · rintro ⟨fs', hfs', hlaid⟩
    cases hfs'
    exact hlaid
  · intro hlaid
    exact ⟨fs, rfl, hlaid⟩

/-- Two halves of a byte and a word. -/
theorem nibbles_and_word_laid_out :
    ∃ n r, efiMemTypecastByDict .x64 noNames n (blank 4096 false)
        (StructSpec.bits ['a'] 'B' ['4'] (.bits ['b'] 'B' ['4'] (.scalar ['c'] [] 'H' .nil))).entries =
          .ok r ∧
      LaidOut .x64 (.bits ['a'] 'B' ['4'] (.bits ['b'] 'B' ['4'] (.scalar ['c'] [] 'H' .nil))) r := by
  have hwf : WellFormed .x64 none
      (.bits ['a'] 'B' ['4'] (.bits ['b'] 'B' ['4'] (.scalar ['c'] [] 'H' .nil))) := by
    simp only [WellFormed, List.forall_mem_cons, List.not_mem_nil, false_imp_iff, implies_true]
    decide
  rcases struct_laid_out_iff .x64 noNames _ hwf trivial with ⟨n, hn⟩
  rcases hn n (Nat.le_refl n) (blank 4096 false) with ⟨r, hr, hiff⟩
  refine ⟨n, r, hr, hiff.mpr ⟨?_, ?_⟩⟩
  · simp only [RunsFill, Closed]
    decide
  · decide

/-- Half a byte and a byte: both start at bit 0. -/
theorem nibble_and_byte_overlap :
    WellFormed .x64 none (.bits ['a'] 'B' ['4'] (.scalar ['b'] [] 'B' .nil)) ∧
    ∃ n r fs, efiMemTypecastByDict .x64 noNames n (blank 4096 false)
        (StructSpec.bits ['a'] 'B' ['4'] (.scalar ['b'] [] 'B' .nil)).entries = .ok r ∧
      r.fields = .dict fs ∧
      extents .x64 r.addr (.bits ['a'] 'B' ['4'] (.scalar ['b'] [] 'B' .nil)) fs = [⟨0, 4⟩, ⟨0, 8⟩] ∧
      ¬ LaidOut .x64 (.bits ['a'] 'B' ['4'] (.scalar ['b'] [] 'B' .nil)) r := by
  have hwf : WellFormed .x64 none (.bits ['a'] 'B' ['4'] (.scalar ['b'] [] 'B' .nil)) := by
    simp only [WellFormed, List.forall_mem_cons, List.not_mem_nil, false_imp_iff, implies_true]
    decide
  refine ⟨hwf, ?_⟩
  rcases castByDict_placed .x64 noNames hwf trivial with ⟨n, hn⟩
  rcases hn n (Nat.le_refl n) (blank 4096 false) with ⟨x, fs, hpl, hr⟩
  refine ⟨n, _, fs, hr, rfl, ?_, ?_⟩
  · rcases hpl with ⟨f, fs', rfl, haddr, hoff, g, fs'', rfl, haddr', hoff', rfl, -⟩
    rw [Option.getD_none, Nat.zero_mod] at hoff
    have hf : bitPos .x64 4096 f.2 = 0 := by
      rw [bitPos, haddr, hoff]
      decide
    -- the byte does not leave the unit of the four bits in front of it
    have hg : bitPos .x64 4096 g.2 = 0 := by
      rw [bitPos, haddr', hoff', hoff]
      decide
    show [(⟨bitPos .x64 4096 f.2, 4⟩ : Extent), ⟨bitPos .x64 4096 g.2, 8⟩] = _
    rw [hf, hg]
  · rintro ⟨fs', hfs', hlaid⟩
    cases hfs'
    have hfill := ((laid_iff hwf hpl).mp hlaid).1
    revert hfill
    simp only [RunsFill, Closed]
    decide

end EfiLvgl.Uefi
