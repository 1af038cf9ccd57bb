import EfiLvgl.Uefi.Relocate

/-!
# EfiLvgl.Uefi.Pages — memory that is taken in pages

`mem(n, 0, True)` asks for `n` pages, and the object says that it has `n` bytes; `FREE` gives back
the pages of so many bytes. With a description in place of `n` both count bytes. The numbers of
pages are the same exactly when `RoundsAlike` holds (`pages_released_iff`).
-/

namespace EfiLvgl.Uefi

/-- `EFI_SIZE_TO_PAGES`. -/
def efiSizeToPages (size : Nat) : Nat := size / 4096 + if size % 4096 ≠ 0 then 1 else 0

/-- The calls of the memory services. -/
inductive MemCall where
  | allocatePages (pages : Nat)
  | allocateZeroPool (size : Nat)
  | freePages (addr pages : Nat)
  | freePool (addr : Nat)
deriving DecidableEq, Repr

/-- The memory that `efi_mem_make_new` asks for. -/
def memRequest (page : Bool) (len : Nat) : MemCall :=
  if page then .allocatePages (efiSizeToPages len) else .allocateZeroPool len

/-- `efi_mem_make_new` with the call that it makes; `answer` is the address that comes of it. -/
def efiMemMakeNewCall (a : Arch) (ns : Namespace) (n : Nat) (arg : MemArg) (addr : Nat)
    (pmem readonly : Bool) (answer : MemCall → Nat) : Res (Mem × Option MemCall) := do
  let p ← makeNewObj a ns n addr pmem readonly arg
  if addr = 0 ∧ 0 < p.2 then do
    let m ← efiMemUpdateAddr a (answer (memRequest p.1.page p.2)) p.1
    .ok (m, some (memRequest p.1.page p.2))
  else .ok (p.1, none)

/-- `efi_mem_free`: the call and the object behind it. -/
def efiMemFree (m : Mem) : Option MemCall × Mem :=
  if m.addr ≠ 0 then
    (some (if m.page then .freePages m.addr (efiSizeToPages m.size) else .freePool m.addr),
      { m with addr := 0 })
  else (none, m)

/-! ## Counting pages -/

/-- A word holds a whole number of pages. -/
theorem Arch.word_pages (a : Arch) : a.word = a.word / 4096 * 4096 := by
  cases a <;> decide

theorem efiSizeToPages_mul (k : Nat) : efiSizeToPages (k * 4096) = k := by
  rw [efiSizeToPages, Nat.mul_div_cancel _ (by decide), Nat.mul_mod_left, if_neg (by decide),
    Nat.add_zero]

/-- As many pages are asked for as the argument says, modulo those that a word can count. -/
theorem pages_of_count (a : Arch) (k : Nat) :
    efiSizeToPages (k * 4096 % a.word) = k % (a.word / 4096) := by
  have hmod : k * 4096 % a.word = k % (a.word / 4096) * 4096 := by
    rw [a.word_pages, Nat.mul_mod_mul_right, ← a.word_pages]
  rw [hmod, efiSizeToPages_mul]

theorem efiSizeToPages_pos {size : Nat} (h : 0 < size) : 0 < efiSizeToPages size := by
  unfold efiSizeToPages
  split <;> omega

/-! ## Making and freeing -/

section Free

variable {a : Arch} {ns : Namespace} {n : Nat} {readonly : Bool}

/-- An object of `k` bytes. -/
def bytesObj (a : Arch) (addr k : Nat) (readonly pmem : Bool) : Mem :=
  Mem.sized a { blank addr readonly with typespec := some ['B'], typesize := 1 } k pmem

theorem efiMemNewN_bytes (addr k : Nat) (pmem : Bool) :
    efiMemNewN a ns n addr k (some ['B']) readonly pmem =
      .ok (bytesObj a addr k readonly pmem) := by
  show (byStrLoop _ _ _ 0 false ['B'] >>= _) = _
  rw [byStrLoop_plain _ _ (by decide), byStrLoop_nil]
  rfl

/-- The object of a number has so many bytes. -/
theorem makeNewObj_len (k addr : Nat) :
    makeNewObj a ns n addr true readonly (.len k) =
      .ok (bytesObj a addr k readonly true, k * 4096 % a.word) := by
  show _ <$> efiMemNewN a ns n addr k (some ['B']) readonly true = _
  rw [efiMemNewN_bytes]
  rfl

theorem makeNewObj_addr {arg : MemArg} {addr : Nat} {pmem : Bool} {p : Mem × Nat}
    (h : makeNewObj a ns n addr pmem readonly arg = .ok p) : p.1.addr = addr := by
  unfold makeNewObj at h
  split at h
  · rw [efiMemNewN_bytes] at h
    cases h
    rfl
  · rcases map_ok h with ⟨m, hm, rfl⟩
    exact (efiMemNew_summed hm).2
  · rw [efiMemNewN_bytes] at h
    cases h
    rfl

/-- The object of a description has so many bytes as its items have. -/
theorem makeNewObj_spec_size {t : Str} (ht : t ≠ []) {addr : Nat} {pmem : Bool} {p : Mem × Nat}
    (h : makeNewObj a ns n addr pmem readonly (.spec t) = .ok p) :
    p.1.page = pmem ∧ p.1.size = p.1.typesize * repeatCount a t % a.word ∧
      p.2 = if 0 < p.1.size then p.1.size else p.1.typesize := by
  rw [makeNewObj_spec a ns n addr pmem readonly ht] at h
  rcases map_ok h with ⟨m, hm, rfl⟩
  rcases (newBySpec_ok a _).mp hm with ⟨g, -, rfl⟩
  exact ⟨rfl, rfl, rfl⟩

/-- What is not at address zero has been given memory. -/
theorem efiMemMakeNewCall_ok {arg : MemArg} {answer : MemCall → Nat} {m : Mem}
    {call : Option MemCall}
    (h : efiMemMakeNewCall a ns n arg 0 true readonly answer = .ok (m, call)) (haddr : m.addr ≠ 0) :
    ∃ p, makeNewObj a ns n 0 true readonly arg = .ok p ∧ 0 < p.2 ∧
      call = some (memRequest p.1.page p.2) ∧ m.page = p.1.page ∧ m.size = p.1.size ∧
      m.typesize = p.1.typesize := by
  rcases bind_ok.mp h with ⟨p, hp, h⟩
  refine ⟨p, hp, ?_⟩
  by_cases hneed : 0 < p.2
  · rw [if_pos ⟨rfl, hneed⟩] at h
    rcases bind_ok.mp h with ⟨m', hm', h⟩
    cases h
    rcases efiMemUpdateAddr_ok hm' with ⟨fields, rfl, -⟩
    exact ⟨hneed, rfl, rfl, rfl, rfl⟩
  · rw [if_neg fun hboth => hneed hboth.2] at h
    cases h
    exact absurd (makeNewObj_addr hp) haddr

end Free

/-- What `mem` is called with makes both counts agree: of `n`, the pages of so many bytes are `n`
pages; of a description, all items together have a size. -/
def RoundsAlike (a : Arch) (m : Mem) : MemArg → Prop
  | .len k => k % (a.word / 4096) = efiSizeToPages k
  | .spec t => m.typesize * repeatCount a t % a.word ≠ 0

/-- The pages that are given back are those that were asked for exactly when `RoundsAlike` holds. -/
theorem pages_released_iff {a : Arch} {ns : Namespace} {n : Nat} {readonly : Bool} {arg : MemArg}
    {answer : MemCall → Nat} {m : Mem} {call : Option MemCall}
    (h : efiMemMakeNewCall a ns n arg 0 true readonly answer = .ok (m, call)) (haddr : m.addr ≠ 0)
    (hk : ∀ k, arg = .len k → 2 * k < a.word) :
    (∃ pages, call = some (.allocatePages pages) ∧
      (efiMemFree m).1 = some (.freePages m.addr pages)) ↔ RoundsAlike a m arg := by
  rcases efiMemMakeNewCall_ok h haddr with ⟨p, hp, hneed, rfl, hpage, hsize, htype⟩
  have hpages : p.1.page = true →
      ((∃ pages, some (memRequest p.1.page p.2) = some (.allocatePages pages) ∧
      (efiMemFree m).1 = some (.freePages m.addr pages)) ↔
        efiSizeToPages p.2 = efiSizeToPages p.1.size) := by
    intro htrue
    rw [efiMemFree, if_pos haddr, hpage, htrue, hsize, memRequest, if_pos rfl, if_pos rfl]
    constructor
    · rintro ⟨pages, hasked, hfreed⟩
      have hfirst := MemCall.allocatePages.inj (Option.some.inj hasked)
      have hsecond := (MemCall.freePages.inj (Option.some.inj hfreed)).2
      exact hfirst.trans hsecond.symm
    · intro heq
      exact ⟨_, rfl, by rw [heq]⟩
  cases arg with
  | len k =>
      -- a byte buffer has as many bytes as it asked for
      rw [makeNewObj_len] at hp
      cases hp
      have hlt : k < a.word := by
        have htwice := hk k rfl
        omega
      have hbytes : (bytesObj a 0 k readonly true).size = k := by
        show 1 * k % a.word = k
        rw [Nat.one_mul, Nat.mod_eq_of_lt hlt]
      rw [hpages rfl, pages_of_count, hbytes]
      rfl
  | spec t =>
      cases t with
      | nil =>
          rcases map_ok hp with ⟨g, -, rfl⟩
          exact absurd hneed (Nat.lt_irrefl 0)
      | cons c t =>
          -- an object of a type is asked for and given back by its size
          rcases makeNewObj_spec_size (by simp) hp with ⟨htrue, hbytes, hlen⟩
          rw [hpages htrue, RoundsAlike, htype, ← hbytes, hlen]
          by_cases hzero : 0 < p.1.size
          · rw [if_pos hzero]
            exact iff_of_true rfl (Nat.ne_of_gt hzero)
          · -- nothing is given back of an object without a size
            rw [hlen, if_neg hzero] at hneed
            rw [if_neg hzero, Nat.eq_zero_of_not_pos hzero]
            exact iff_of_false (Nat.ne_of_gt (efiSizeToPages_pos hneed)) (fun h => h rfl)

/-- One page. -/
theorem pages_released_one :
    ∃ m call,
      efiMemMakeNewCall .x64 noNames 0 (.len 1) 0 true false (fun _ => 4096) = .ok (m, call) ∧
      m.addr ≠ 0 ∧ (∀ k, MemArg.len 1 = .len k → 2 * k < Arch.word .x64) ∧
      ∃ pages, call = some (.allocatePages pages) ∧
        (efiMemFree m).1 = some (.freePages m.addr pages) := by
  have h : efiMemMakeNewCall .x64 noNames 0 (.len 1) 0 true false (fun _ => 4096) =
      .ok (bytesObj .x64 4096 1 false true, some (.allocatePages 1)) := by
    rw [efiMemMakeNewCall, makeNewObj_len]
    rfl
  have hk : ∀ k, MemArg.len 1 = .len k → 2 * k < Arch.word .x64 := by
    intro k hk
    cases hk
    decide
  have hround : 1 % (Arch.word .x64 / 4096) = efiSizeToPages 1 := by decide
  exact ⟨_, _, h, by decide, hk, (pages_released_iff h (by decide) hk).mpr hround⟩

/-- Of two pages one is given back. -/
theorem second_page_kept :
    efiMemMakeNewCall .x64 noNames 0 (.len 2) 0 true false (fun _ => 4096) =
        .ok (bytesObj .x64 4096 2 false true, some (.allocatePages 2)) ∧
      (efiMemFree (bytesObj .x64 4096 2 false true)).1 = some (.freePages 4096 1) := by
  refine ⟨?_, by decide⟩
  rw [efiMemMakeNewCall, makeNewObj_len]
  rfl

end EfiLvgl.Uefi
