import EfiLvgl.Uefi.Pages
import EfiLvgl.Uefi.Resolve

/-!
# EfiLvgl.Uefi.Alias — names that stand for texts

`O#A` with `A` bound to a text `s` is read by a cast of the half-built object to `s`, whose repeat
count goes into a size that the constructor overwrites. The object is that of `s` exactly when `s`
is `Plain` (`transparent_iff`): its count does not matter, and the cast can compute its size.
-/

namespace EfiLvgl.Uefi

open Fuel

/-- A name that leads to a text, through any number of aliases. -/
inductive AliasOf (ns : Namespace) (s : Str) : Str → Prop where
  | text {x : Str} {o : Option ns.Obj} (hload : loadObjByNamespace ns none [] x = .ok o)
      (hdesc : ns.desc o = .str s) (hs : s.head? ≠ some '#') : AliasOf ns s ('#' :: x)
  | next {x name : Str} {o : Option ns.Obj} (hload : loadObjByNamespace ns none [] x = .ok o)
      (hdesc : ns.desc o = .str name) (hname : AliasOf ns s name) : AliasOf ns s ('#' :: x)

theorem AliasOf.head {ns : Namespace} {s name : Str} (h : AliasOf ns s name) :
    name.head? = some '#' := by
  cases h <;> rfl

/-- Resolving the name ends with the text. -/
theorem AliasOf.resolve {ns : Namespace} {s name : Str} (h : AliasOf ns s name) (d : TypeDesc) :
    Settles .fuel (fun n => resolveTypeByName ns n d name) (.ok (.str s)) := by
  induction h generalizing d with
  | text hload hdesc hs =>
      refine Settles.of_succ (Settles.of_succ ((Settles.const (by simp)).congr fun n => ?_))
      rw [resolveTypeByName_name, hload, bind_ok_left, hdesc]
      exact resolveTypeByName_text n _ hs
  | @next x name o hload hdesc _ ih =>
      refine Settles.of_succ ((ih (.str name)).congr fun n => ?_)
      rw [resolveTypeByName_name, hload, bind_ok_left, hdesc]

/-! ## The two ways to a text -/

section Ways

variable {a : Arch} {ns : Namespace} {A s : Str} {r : Res Mem}

/-- What a text is read into, without its count. -/
def item (a : Arch) (ns : Namespace) (addr : Nat) (readonly : Bool) (s : Str) (n : Nat) : Res Mem :=
  efiMemTypecastByStr a ns n (blank addr readonly) (afterCount s)

theorem item_grows (addr : Nat) (readonly : Bool) (s : Str) :
    Grows .fuel (item a ns addr readonly s) :=
  fun n => castByStr_below (derefBelow_castByName a ns n) _ _

theorem settles_text {addr : Nat} {readonly : Bool} (pmem : Bool)
    (hr : Settles .fuel (item a ns addr readonly s) r) :
    Settles .fuel (fun n => newBySpec a (castByName a ns n) addr s readonly pmem)
      (r >>= fun g => .ok (g.sized a (repeatCount a s) pmem)) := by
  cases r with
  | error e => exact hr.bind_error
  | ok g => exact hr.bind (Settles.const (by simp))

/-- The object of a name: a cast to the text fills in a size, and the constructor another one. -/
theorem settles_alias (hA : AliasOf ns s A) {addr : Nat} {readonly : Bool} (pmem : Bool)
    (hr : Settles .fuel (item a ns addr readonly s) r) :
    Settles .fuel (fun n => newBySpec a (castByName a ns n) addr ('O' :: A) readonly pmem)
      (r >>= fun g => g.fillSize a (repeatCount a s) >>= fun g => .ok (g.sized a 1 pmem)) := by
  have hread : ∀ n, newBySpec a (castByName a ns n) addr ('O' :: A) readonly pmem =
      (castByName a ns n { blank addr readonly with typespec := some ('O' :: A), typesize := 0 } A >>=
        fun g => .ok (g.sized a 1 pmem)) := by
    intro n
    have hcount : repeatCount a ('O' :: A) = 1 := by
      rw [repeatCount, List.takeWhile_cons_of_neg (by decide)]
      rfl
    have hrest : afterCount ('O' :: A) = 'O' :: A := by
      rw [afterCount, List.dropWhile_cons_of_neg (by decide)]
    rw [newBySpec, newN, hcount, hrest, castByStr, byStrLoop_object _ _ _ _ hA.head]
    cases castByName a ns n
      { blank addr readonly with typespec := some ('O' :: A), typesize := 0 } A <;> rfl
  -- the name is resolved first, and what it names is read with the rest of the fuel
  have hcast : Settles .fuel (fun n => castByName a ns n
      { blank addr readonly with typespec := some ('O' :: A), typesize := 0 } A)
      (r >>= fun g => g.fillSize a (repeatCount a s)) := by
    refine (hA.resolve .none).bind (Settles.of_succ ?_)
    cases r with
    | error e => exact hr.bind_error
    | ok g => exact hr.bind (Settles.const (fillSize_ne_fuel a g _))
  refine Settles.congr ?_ hread
  cases r with
  | error e => exact hcast.bind_error
  | ok g =>
      rw [bind_ok_left] at hcast ⊢
      cases hfill : g.fillSize a (repeatCount a s) with
      | error e =>
          rw [hfill] at hcast
          exact hcast.bind_error
      | ok g' =>
          rw [hfill] at hcast
          exact hcast.bind (Settles.const (by simp))

end Ways

/-! ## Where they lead to one object -/

/-- What is compared of two objects. -/
def Mem.view (m : Mem) : Option Str × Nat × Nat × Nat × Nat × Fields Mem :=
  (m.typespec, m.typesize, m.size, m.bitoff, m.bitnum, m.fields)

/-- An item whose count does not matter, and whose size can be computed in a cast. -/
def PlainItem (a : Arch) (count : Nat) (g : Mem) : Prop :=
  g.typesize * count ≡ g.typesize [MOD a.word] ∧
    (g.size = 0 → g.bitnum = 0 ∨ g.typesize * 8 % a.word ≠ 0)

theorem fillSize_sized (a : Arch) (g : Mem) (count : Nat) (pmem : Bool) :
    (g.fillSize a count >>= fun g => .ok (g.sized a 1 pmem)) =
      if g.size = 0 → g.bitnum = 0 ∨ g.typesize * 8 % a.word ≠ 0 then .ok (g.sized a 1 pmem)
      else .error .fault := by
  unfold Mem.fillSize efiMemGetSize
  by_cases hsize : g.size = 0
  · rw [if_pos hsize]
    by_cases hnum : g.bitnum = 0
    · rw [if_pos hnum, if_pos fun _ => Or.inl hnum]
      rfl
    · rw [if_neg hnum]
      by_cases htype : g.typesize * 8 % a.word = 0
      · rw [if_pos htype, if_neg fun h => (h hsize).elim hnum fun h => h htype]
        rfl
      · rw [if_neg htype, if_pos fun _ => Or.inr htype]
        rfl
  · rw [if_neg hsize, if_pos fun h => absurd h hsize]
    rfl

/-- Both ways lead to one object from a plain item. -/
theorem sized_of_plain {a : Arch} {count : Nat} {g : Mem} (h : PlainItem a count g) (pmem : Bool) :
    (g.fillSize a count >>= fun g => .ok (g.sized a 1 pmem)) = .ok (g.sized a count pmem) := by
  rw [fillSize_sized, if_pos h.2]
  have hsize : g.typesize * 1 % a.word = g.typesize * count % a.word := by
    rw [Nat.mul_one]
    exact h.1.symm
  rw [Mem.sized, Mem.sized, hsize]

/-- Objects that look the same come from a plain item only. -/
theorem plain_of_view {a : Arch} {count : Nat} {g : Mem} {pmem : Bool}
    (h : Mem.view <$> (g.fillSize a count >>= fun g => .ok (g.sized a 1 pmem)) =
      Mem.view <$> (.ok (g.sized a count pmem) : Res Mem)) : PlainItem a count g := by
  rw [fillSize_sized] at h
  split at h
  · next hsize =>
      have hview := congrArg (fun v => v.2.2.1) (Except.ok.inj h)
      refine ⟨?_, hsize⟩
      have hmod : g.typesize * 1 % a.word = g.typesize * count % a.word := hview
      rw [Nat.mul_one] at hmod
      exact hmod.symm
  · cases h

/-- A text that is not empty, of a plain item. -/
structure Plain (a : Arch) (ns : Namespace) (s : Str) : Prop where
  ne_nil : s ≠ []
  item : ∀ readonly g, Settles .fuel (item a ns 0 readonly s) (.ok g) →
    PlainItem a (repeatCount a s) g

/-- Wherever `A` stands in place of `s`, it makes no difference. -/
structure Transparent (a : Arch) (ns : Namespace) (A s : Str) : Prop where
  mem : ∀ addr pmem readonly alloc x y, addr < a.word →
    Settles .fuel (fun n =>
      efiMemMakeNew a ns n (.spec ('O' :: A)) addr pmem readonly alloc) x →
    Settles .fuel (fun n => efiMemMakeNew a ns n (.spec s) addr pmem readonly alloc) y →
    Mem.view <$> x = Mem.view <$> y
  field : ∀ (self : Mem) (pre : List (Str × SpecObj)) (key : Str) (post : List (Str × SpecObj)) x y,
    self.addr < a.word →
    Settles .fuel (fun n =>
      efiMemTypecastByDict a ns n self (pre ++ (key, .str ('O' :: A)) :: post)) x →
    Settles .fuel (fun n => efiMemTypecastByDict a ns n self (pre ++ (key, .str s) :: post)) y →
    x = y

section Transparent

variable {a : Arch} {ns : Namespace} {A s : Str}

/-- The item at an address is that at zero, moved there. -/
theorem item_shift {addr : Nat} (haddr : addr < a.word) (readonly : Bool) (n : Nat) :
    Uefi.item a ns addr readonly s n = Mem.shift a addr <$> Uefi.item a ns 0 readonly s n := by
  have hderef : Shifts a addr (castByName a ns n) := shifts_castByName n
  have hblank : blank addr readonly = (blank 0 readonly).shift a addr := by
    rw [shift_blank, Nat.add_zero, Nat.mod_eq_of_lt haddr]
  rw [Uefi.item, hblank]
  exact castByStr_shift hderef _ _

/-- It is as plain. -/
theorem plainItem_shift (addr count : Nat) (g : Mem) :
    PlainItem a count (g.shift a addr) ↔ PlainItem a count g := by
  rw [Mem.shift_eq]
  exact Iff.rfl

theorem Plain.item_at (h : Plain a ns s) {addr : Nat} (haddr : addr < a.word) {readonly : Bool}
    {g : Mem}
    (hg : Settles .fuel (Uefi.item a ns addr readonly s) (.ok g)) :
    PlainItem a (repeatCount a s) g := by
  rcases hg with ⟨-, k, hk⟩
  have hzero := hk k (Nat.le_refl k)
  rw [item_shift haddr] at hzero
  rcases map_ok hzero with ⟨g₀, hg₀, rfl⟩
  have hset := (item_grows 0 readonly s).settles
    (show Uefi.item a ns 0 readonly s k ≠ _ by simp [hg₀])
  rw [hg₀] at hset
  exact (plainItem_shift _ _ _).mpr (h.item readonly g₀ hset)

/-- Both ways to a plain text lead to one object. -/
theorem agree_of_plain (hA : AliasOf ns s A) (h : Plain a ns s) {addr : Nat} (haddr : addr < a.word)
    (readonly pmem : Bool) :
    Agree .fuel (fun n => newBySpec a (castByName a ns n) addr ('O' :: A) readonly pmem)
      fun n => newBySpec a (castByName a ns n) addr s readonly pmem := by
  intro x y hx hy
  have hend : ∃ r, Settles .fuel (Uefi.item a ns addr readonly s) r := by
    rcases Settles.of_bind (item_grows addr readonly s) hy with ⟨e, he, -⟩ | ⟨g, hg, -⟩
    · exact ⟨_, he⟩
    · exact ⟨_, hg⟩
  rcases hend with ⟨r, hr⟩
  rw [hx.unique (settles_alias hA pmem hr), hy.unique (settles_text pmem hr)]
  cases r with
  | error e => rfl
  | ok g => exact sized_of_plain (h.item_at haddr hr) pmem

/-- `mem(t, addr)` up to the memory that it may ask for. -/
theorem efiMemMakeNew_spec {t : Str} (ht : t ≠ []) (n addr : Nat) (pmem readonly : Bool)
    (alloc : Nat → Nat) :
    efiMemMakeNew a ns n (.spec t) addr pmem readonly alloc =
      (newBySpec a (castByName a ns n) addr t readonly pmem >>= fun m =>
        if addr = 0 ∧ 0 < (if 0 < m.size then m.size else m.typesize) then
          efiMemUpdateAddr a (alloc (if 0 < m.size then m.size else m.typesize)) m
        else .ok m) := by
  rw [efiMemMakeNew, makeNewObj_spec a ns n addr pmem readonly ht]
  show ((fun m : Mem => (m, if 0 < m.size then m.size else m.typesize)) <$>
    newBySpec a (castByName a ns n) addr t readonly pmem) >>= _ = _
  cases newBySpec a (castByName a ns n) addr t readonly pmem <;> rfl

/-- At an address of its own no memory is asked for. -/
theorem settles_new {t : Str} {readonly : Bool} {x : Res Mem} (ht : t ≠ [])
    (hx : Settles .fuel (fun n => newBySpec a (castByName a ns n) 4096 t readonly false) x) :
    Settles .fuel (fun n => efiMemMakeNew a ns n (.spec t) 4096 false readonly fun _ => 0) x := by
  refine hx.congr fun n => ?_
  rw [efiMemMakeNew_spec ht]
  cases newBySpec a (castByName a ns n) 4096 t readonly false <;> rfl

theorem newBySpec_grows (addr : Nat) (t : Str) (readonly pmem : Bool) :
    Grows .fuel fun n => newBySpec a (castByName a ns n) addr t readonly pmem :=
  efiMemNew_grows a ns addr t readonly pmem

/-- Fields in front of the name and behind it are the same in both layouts. -/
theorem byDictLoop_agree (hA : AliasOf ns s A) (h : Plain a ns s) (readonly page : Bool) (key : Str)
    (post : List (Str × SpecObj)) (pre : List (Str × SpecObj)) (last : Option Mem) {addr : Nat}
    (haddr : addr < a.word) :
    Agree .fuel
      (fun n => byDictLoop a (castByName a ns n) readonly page last addr
        (pre ++ (key, .str ('O' :: A)) :: post))
      fun n => byDictLoop a (castByName a ns n) readonly page last addr
        (pre ++ (key, .str s) :: post) := by
  induction pre generalizing last addr with
  | nil =>
      simp only [List.nil_append, byDictLoop, strGetStr, bind_ok_left]
      refine (agree_of_plain hA h haddr readonly page).bind (newBySpec_grows _ _ _ _)
        (newBySpec_grows _ _ _ _) fun g => ?_
      exact Agree.refl _
  | cons e pre ih =>
      rcases e with ⟨key', value⟩
      simp only [List.cons_append, byDictLoop]
      refine (Agree.refl _).bind (grows_const _) (grows_const _) fun t => ?_
      refine (Agree.refl _).bind (newBySpec_grows _ _ _ _) (newBySpec_grows _ _ _ _) fun g => ?_
      refine (Agree.refl _).bind (grows_const _) (grows_const _) fun size => ?_
      refine (ih _ (Nat.mod_lt _ a.word_pos)).bind ?_ ?_ fun _ => Agree.refl _
      · exact fun n => byDictLoop_below (derefBelow_castByName a ns n) _ _ _ _ _
      · exact fun n => byDictLoop_below (derefBelow_castByName a ns n) _ _ _ _ _

/-- A name that stands for a text can stand in its place exactly when the text is plain. -/
theorem transparent_iff (hA : AliasOf ns s A) : Transparent a ns A s ↔ Plain a ns s := by
  constructor
  · intro h
    have hplace : 4096 < a.word := by cases a <;> decide
    have hne : s ≠ [] := by
      -- the empty text stands for bytes in a call, and for nothing behind a name
      rintro rfl
      have hitem : Settles .fuel (Uefi.item a ns 4096 false [])
          (.ok { blank 4096 false with typespec := some [] }) :=
        (Settles.const (by simp)).congr fun n => byStrLoop_nil _ _ _
      have hbytes : Settles .fuel
          (fun n => efiMemMakeNew a ns n (.spec []) 4096 false false fun _ => 0)
          (.ok (bytesObj a 4096 0 false false)) := by
        refine (Settles.const (by simp)).congr fun n => ?_
        show (((fun m => (m, 0)) <$> efiMemNewN a ns n 4096 0 (some ['B']) false false) >>= _) = _
        rw [efiMemNewN_bytes]
        rfl
      have hview := h.mem 4096 false false _ _ _ hplace
        (settles_new (List.cons_ne_nil 'O' A) (settles_alias hA false hitem)) hbytes
      rw [bind_ok_left, fillSize_sized] at hview
      split at hview
      · cases congrArg Prod.fst (Except.ok.inj hview)
      · cases hview
    refine ⟨hne, fun readonly g hg => ?_⟩
    have hitem : Settles .fuel (Uefi.item a ns 4096 readonly s) (.ok (g.shift a 4096)) :=
      (hg.map (Mem.shift a 4096)).congr fun n => item_shift hplace readonly n
    have hview := h.mem 4096 false readonly _ _ _ hplace
      (settles_new (List.cons_ne_nil 'O' A) (settles_alias hA false hitem))
      (settles_new hne (settles_text false hitem))
    exact (plainItem_shift _ _ _).mp (plain_of_view hview)
  · intro h
    constructor
    · intro addr pmem readonly alloc x y haddr hx hy
      have hagree : Agree .fuel
          (fun n => efiMemMakeNew a ns n (.spec ('O' :: A)) addr pmem readonly alloc)
          fun n => efiMemMakeNew a ns n (.spec s) addr pmem readonly alloc := by
        simp only [efiMemMakeNew_spec h.ne_nil, efiMemMakeNew_spec (List.cons_ne_nil 'O' A)]
        exact (agree_of_plain hA h haddr readonly pmem).bind (newBySpec_grows _ _ _ _)
          (newBySpec_grows _ _ _ _) fun m => Agree.refl _
      rw [hagree x y hx hy]
    · intro self pre key post x y haddr hx hy
      refine Agree.bind ?_ ?_ (byDictLoop_agree hA h _ _ key post pre none haddr)
        (fun p => Agree.refl _) x y hx hy
      · exact fun n => byDictLoop_below (derefBelow_castByName a ns n) _ _ _ _ _
      · exact fun n => byDictLoop_below (derefBelow_castByName a ns n) _ _ _ _ _

end Transparent

/-- A text of one letter and a count is read into an item of the letter. -/
theorem item_letter {a : Arch} {ns : Namespace} {c : Char} {s : Str} (hc : plainLetter c = true)
    (hs : afterCount s = [c]) (addr : Nat) (readonly : Bool) :
    Settles .fuel (item a ns addr readonly s)
      (.ok { blank addr readonly with typespec := some [c], typesize := typeSize a c }) := by
  refine (Settles.const (by simp)).congr fun n => ?_
  rw [item, hs]
  show byStrLoop a _ _ 0 false [c] = _
  rw [byStrLoop_plain _ _ hc, byStrLoop_nil]
  rfl

/-- An alias of an alias of `H`, and a name for four bytes. -/
def aliasNames : Namespace :=
  globals [(['A'], .str ['#', 'B']), (['B'], .str ['H']), (['C'], .str ['4', 'B'])]

theorem transparent_iff_word :
    AliasOf aliasNames ['H'] ['#', 'A'] ∧ Transparent .x64 aliasNames ['#', 'A'] ['H'] := by
  have hB : AliasOf aliasNames ['H'] ['#', 'B'] := .text rfl rfl (by decide)
  have hA : AliasOf aliasNames ['H'] ['#', 'A'] := .next rfl rfl hB
  refine ⟨hA, (transparent_iff hA).mpr ⟨by decide, ?_⟩⟩
  intro readonly g hg
  cases hg.unique (item_letter (by decide) rfl 0 readonly)
  exact ⟨rfl, fun _ => Or.inl rfl⟩

/-- The count of four bytes is lost behind a name. -/
theorem count_lost_behind_name :
    AliasOf aliasNames ['4', 'B'] ['#', 'C'] ∧
      (∃ m, Settles .fuel (fun n => efiMemMakeNew .x64 aliasNames n (.spec ['O', '#', 'C']) 4096 false
        false fun _ => 0) (.ok m) ∧ m.size = 1) ∧
      (∃ m, Settles .fuel (fun n => efiMemMakeNew .x64 aliasNames n (.spec ['4', 'B']) 4096 false
        false fun _ => 0) (.ok m) ∧ m.size = 4) ∧
      ¬ Transparent .x64 aliasNames ['#', 'C'] ['4', 'B'] := by
  have hC : AliasOf aliasNames ['4', 'B'] ['#', 'C'] := .text rfl rfl (by decide)
  have hitem : Settles .fuel (item .x64 aliasNames 4096 false ['4', 'B'])
      (.ok { blank 4096 false with typespec := some ['B'], typesize := 1 }) :=
    item_letter (by decide) rfl 4096 false
  have hname := settles_new (List.cons_ne_nil 'O' ['#', 'C']) (settles_alias hC false hitem)
  have htext := settles_new (List.cons_ne_nil '4' ['B']) (settles_text false hitem)
  refine ⟨hC, ⟨_, hname, rfl⟩, ⟨_, htext, rfl⟩, fun h => ?_⟩
  have hview := h.mem 4096 false false _ _ _ (by decide) hname htext
  have hsize := congrArg (fun v => v.2.2.1) (Except.ok.inj hview)
  cases hsize

end EfiLvgl.Uefi
