import EfiLvgl.Uefi.Slice
import EfiLvgl.Variables.Runtime

/-!
# EfiLvgl.Variables.Objects — what scripts do with objects

One lemma for each way in which `uefi.py` uses an object: it makes one, stores a text, an
integer or bytes, or loads a value. Each says which block of memory is taken or written to and
what is in it then, and so leaves all other blocks alone.
-/

namespace EfiLvgl.Variables

open EfiLvgl.Text (utf8Charlen_unicodeToUtf8 utf8ToUnicode_unicodeToUtf8)
open EfiLvgl.Uefi

section Objects

variable {a : Arch} {env : Env a}

/-! ## New objects -/

/-- An array of `n` elements of a letter's type. -/
def arrayObj (a : Arch) (c : Char) (addr n : Nat) : Mem :=
  Mem.sized a { blank addr false with typespec := some [c], typesize := typeSize a c } n false

/-- The block of an array. -/
def arrayBlock (a : Arch) (c : Char) (addr n : Nat) : Block := ⟨addr, typeSize a c * n⟩

theorem arrayObj_size {c : Char} {addr n : Nat} (hfit : typeSize a c * n < a.word) :
    (arrayObj a c addr n).size = typeSize a c * n :=
  Nat.mod_eq_of_lt hfit

theorem memLen_arrayObj {c : Char} {addr n : Nat} (hpos : 0 < typeSize a c)
    (hfit : typeSize a c * n < a.word) : memLen (arrayObj a c addr n) = n := by
  unfold memLen
  rw [arrayObj_size hfit]
  show (if 0 < typeSize a c then typeSize a c * n / typeSize a c else 0) = n
  rw [if_pos hpos, Nat.mul_div_cancel_left n hpos]

/-- The text of a type with a count. -/
theorem efiMemNew_digits {ns : Namespace} {n buf : Nat} {ds : Str} {c : Char}
    (hds : ∀ d ∈ ds, d.isDigit = true) (hc : plainLetter c = true) :
    efiMemNew a ns n buf (some (ds ++ [c])) false false =
      .ok (arrayObj a c buf (repeatCount a (ds ++ [c]))) := by
  refine (newBySpec_ok _ _).mpr ⟨{ blank buf false with
    typespec := some [c], typesize := typeSize a c }, ?_, rfl⟩
  rw [afterCount_count hds (isAlpha_of_plainLetter hc), castByStr, byStrLoop_plain _ _ hc,
    byStrLoop_nil]
  rfl

/-- `AllocateZeroPool`. -/
theorem wp_allocateZeroPool {w : World a} {len : Nat} {Q : Nat → World a → Prop}
    {E : Exc → World a → Prop}
    (hok : ∀ p heap, w.heap.Takes heap ⟨p, len⟩ (List.replicate len 0) →
      Q p { w with heap := heap })
    (hno : env.pool.take w.heap.live len = none → E .noMemory w) :
    Wp (allocateZeroPool env len) w Q E := by
  cases halloc : w.heap.alloc env.pool len with
  | none =>
      refine wp_error ?_ (hno (Heap.alloc_eq_none halloc))
      unfold allocateZeroPool
      rw [halloc]
  | some r =>
      rcases r with ⟨p, heap⟩
      refine wp_ok ?_ (hok p heap (Heap.takes_alloc a.word_pos halloc))
      unfold allocateZeroPool
      rw [halloc]

/-- A new array is put where there is memory. -/
theorem efiMemUpdateAddr_array {c : Char} {p n : Nat} (hp : p < a.word) :
    efiMemUpdateAddr a p (arrayObj a c 0 n) = .ok (arrayObj a c p n) := by
  have hfields : (if (some [c]).any fun t => t.head? ≠ some 'F' then
      updateFields a p .null else .ok .null : Res (Fields Mem)) = .ok .null := ite_self _
  have hplace : (p + 0) % a.word = p := by rw [Nat.add_zero, Nat.mod_eq_of_lt hp]
  unfold arrayObj efiMemUpdateAddr Mem.sized
  dsimp only
  rw [show (blank 0 false).fields = .null from rfl, hfields, bind_ok_left,
    show (blank 0 false).addr = 0 from rfl, hplace]
  rfl

/-- `mem` of a type with a count. -/
theorem wp_memNew {w : World a} {ds : Str} {c : Char} {n : Nat} {Q : Mem → World a → Prop}
    {E : Exc → World a → Prop} (hds : ∀ d ∈ ds, d.isDigit = true) (hc : plainLetter c = true)
    (hn : repeatCount a (ds ++ [c]) = n) (hpos : 0 < typeSize a c * n)
    (hfit : typeSize a c * n < a.word)
    (hok : ∀ p heap, w.heap.Takes heap (arrayBlock a c p n) (List.replicate (typeSize a c * n) 0) →
      Q (arrayObj a c p n) { w with heap := heap })
    (hno : env.pool.take w.heap.live (typeSize a c * n) = none → E .noMemory w) :
    Wp (memNew env (ds ++ [c])) w Q E := by
  have hne : ds ++ [c] ≠ [] := by simp
  have hobj : makeNewObj a noNames 0 0 false false (.spec (ds ++ [c])) =
      .ok (arrayObj a c 0 n, typeSize a c * n) := by
    unfold makeNewObj
    split
    · next heq => exact absurd (MemArg.spec.inj heq) hne
    · next heq =>
        cases heq
        rw [efiMemNew_digits hds hc, hn]
        show Except.ok (arrayObj a c 0 n, _) = _
        rw [arrayObj_size hfit, if_pos hpos]
    · next heq => cases heq
  unfold memNew
  rw [hobj]
  refine wp_bind (wp_pure ?_)
  dsimp only
  rw [if_pos hpos]
  refine wp_bind (wp_allocateZeroPool ?_ hno)
  intro p heap htakes
  have hproper := heap.proper _ htakes.self.1
  have hle := hproper.le
  dsimp only at hle
  rw [efiMemUpdateAddr_array (by omega)]
  exact wp_pure (hok p heap htakes)

/-- `guid` of a text that is one. -/
theorem wp_guidNew {w : World a} {t : List UInt8} {g : { g : List UInt8 // g.length = 16 }}
    {Q : Mem → World a → Prop} {E : Exc → World a → Prop} (hlen : t.length = 36)
    (hg : env.base.asciiStrToGuid t = some g)
    (hok : ∀ p heap, w.heap.Takes heap ⟨p, 16⟩ g.val → Q (efiGuidNew p) { w with heap := heap })
    (hno : env.pool.take w.heap.live 16 = none → E .noMemory w) : Wp (guidNew env t) w Q E := by
  unfold guidNew
  rw [if_neg (not_not.mpr hlen)]
  refine wp_bind (wp_allocateZeroPool ?_ hno)
  intro p heap htakes
  have hfills := Heap.fills_write_start a.word_pos htakes.self (show g.val.length ≤ 16 from g.2.le)
  rw [g.2, List.drop_replicate, Nat.sub_self, List.replicate_zero, List.append_nil] at hfills
  rw [hg]
  refine wp_bind ?_
  exact wp_ok rfl (wp_pure (hok p _ (htakes.fill hfills)))

/-! ## Stores without an index -/

/-- `m.VALUE = value` comes to the first element of an array. -/
theorem storeIndex_value {m : Mem} {lib : BaseLib} {memory : Nat → UInt8} (hro : m.readonly = false)
    (hbit : m.bitnum = 0) (hlen : 2 * memLen m < a.word) (v : PyVal)
    (onItems : Nat → Nat → Store) :
    storeIndex a lib memory m .none v onItems =
      storeElement a lib m true v onItems 0 (memLen m) := by
  unfold storeIndex storeEntry
  rw [hro, if_neg (by decide), if_neg (by rw [hbit]; omega), getInt_natCast hlen]
  simp only [Store.ofRes, Int.toNat_natCast, elementIndex]
  rw [if_neg (by omega)]
  rfl

/-- A store that is not cut short. -/
theorem wp_runStore {w : World a} {f : (Nat → UInt8) → Store} {writes : List Write}
    {Q : Unit → World a → Prop} {E : Exc → World a → Prop} (h : f w.heap.ram.byte = ⟨writes, none⟩)
    (hok : Q () { w with heap := writeAll w.heap writes }) : Wp (runStore f) w Q E := by
  refine wp_ok ?_ hok
  unfold runStore
  rw [h]

/-- A text is stored with its terminator, and with zeros behind it. -/
theorem wp_memStore_text {w : World a} {addr n : Nat} {s : List UInt16} {items : PyItems}
    {old : List UInt8} {Q : Unit → World a → Prop} {E : Exc → World a → Prop}
    (hold : w.heap.Holds (arrayBlock a 'u' addr n) old) (hs : s.length < n)
    (hok : ∀ heap, w.heap.Fills heap (arrayBlock a 'u' addr n)
      (unicodeBytes s ++ List.replicate (2 * n - (s.length + 1) * 2) 0) →
      Q () { w with heap := heap }) :
    Wp (memStore env (arrayObj a 'u' addr n) .none (.str false (unicodeToUtf8 s) items)) w Q E := by
  have hproper := w.heap.proper _ hold.1
  have hfit : typeSize a 'u' * n < a.word := by
    have hpos := hproper.addr_pos
    have hle := hproper.le
    dsimp only [arrayBlock] at hpos hle
    omega
  have hsize : (arrayObj a 'u' addr n).size = 2 * n := arrayObj_size hfit
  have hlen : memLen (arrayObj a 'u' addr n) = n :=
    memLen_arrayObj (Nat.succ_pos 1) hfit
  have htext := length_unicodeBytes s
  have hfit' : 2 * n < a.word := hfit
  -- the whole array is cleared before the text is written
  have hstore : ∀ memory, setValue a env.base memory (arrayObj a 'u' addr n) .none
      (.str false (unicodeToUtf8 s) items) =
      ⟨[⟨addr, List.replicate (2 * n) 0⟩, ⟨addr, unicodeBytes s⟩], none⟩ := by
    intro memory
    show storeAt a env.base memory _ .none _ = _
    rw [storeAt, storeIndex_value rfl rfl (by omega)]
    show (if _ then _ else _) = _
    rw [utf8Charlen_unicodeToUtf8, utf8ToUnicode_unicodeToUtf8, hsize, if_neg (by omega)]
    rfl
  have hzero := Heap.fills_write_start a.word_pos hold
    (show (List.replicate (2 * n) (0 : UInt8)).length ≤ 2 * n by rw [List.length_replicate])
  have hfill := Heap.fills_write_start a.word_pos hzero.self
    (show (unicodeBytes s).length ≤ 2 * n by omega)
  have hrest : (List.replicate (2 * n) (0 : UInt8) ++
      old.drop (List.replicate (2 * n) (0 : UInt8)).length).drop (unicodeBytes s).length =
      List.replicate (2 * n - (s.length + 1) * 2) 0 := by
    have hlength : old.length = 2 * n := hold.length
    have hold_drop : old.drop (List.replicate (2 * n) (0 : UInt8)).length = [] := by
      rw [List.length_replicate, ← hlength, List.drop_length]
    rw [hold_drop, List.append_nil, List.drop_replicate, htext]
  rw [hrest] at hfill
  exact wp_runStore (hstore _) (hok _ (hzero.trans hfill))

/-- The bytes of a machine word. -/
def wordBytes (a : Arch) (x : Nat) : List UInt8 := leBytes a.ptrSize x

/-- `mem('N')`. -/
theorem wp_memNew_word {w : World a} {Q : Mem → World a → Prop} {E : Exc → World a → Prop}
    (hok : ∀ p heap, w.heap.Takes heap (arrayBlock a 'N' p 1)
      (List.replicate (typeSize a 'N' * 1) 0) → Q (arrayObj a 'N' p 1) { w with heap := heap })
    (hno : env.pool.take w.heap.live (typeSize a 'N' * 1) = none → E .noMemory w) :
    Wp (memNew env ['N']) w Q E := by
  have hword := a.word_large
  have hptr : 0 < typeSize a 'N' * 1 ∧ typeSize a 'N' * 1 ≤ 8 := by cases a <;> decide
  have hcount : repeatCount a ([] ++ ['N']) = 1 := rfl
  exact wp_memNew (List.forall_mem_nil _) rfl hcount hptr.1 (by omega) hok hno

theorem length_wordBytes (x : Nat) : (wordBytes a x).length = typeSize a 'N' * 1 := by
  rw [wordBytes, length_leBytes, Nat.mul_one]
  rfl

/-- A word is stored. -/
theorem wp_memStore_word {w : World a} {addr x : Nat} {old : List UInt8}
    {Q : Unit → World a → Prop} {E : Exc → World a → Prop}
    (hold : w.heap.Holds (arrayBlock a 'N' addr 1) old)
    (hok : ∀ heap, w.heap.Fills heap (arrayBlock a 'N' addr 1) (wordBytes a x) →
      Q () { w with heap := heap }) :
    Wp (memStore env (arrayObj a 'N' addr 1) .none (.int x)) w Q E := by
  have hword := a.word_large
  have hptr : typeSize a 'N' = a.ptrSize := rfl
  have hptr8 : 0 < a.ptrSize ∧ a.ptrSize ≤ 8 := by cases a <;> decide
  have hfit : typeSize a 'N' * 1 < a.word := by
    rw [hptr]
    omega
  have hlen : memLen (arrayObj a 'N' addr 1) = 1 := memLen_arrayObj (by rw [hptr]; omega) hfit
  have hstore : ∀ memory, setValue a env.base memory (arrayObj a 'N' addr 1) .none (.int x) =
      ⟨[⟨addr, wordBytes a x⟩], none⟩ := by
    intro memory
    show storeAt a env.base memory _ .none _ = _
    rw [storeAt, storeIndex_value rfl rfl (by omega)]
    show Store.write (addr + 0 * a.ptrSize) _ = _
    rw [Nat.zero_mul, Nat.add_zero]
    rfl
  exact wp_runStore (hstore _)
    (hok _ (Heap.fills_write_all a.word_pos hold (length_wordBytes x)))

/-- A word that memory holds. -/
theorem readUnit_word {heap : Heap a.word} {b : Block} {x : Nat} (hx : x < a.word)
    (h : heap.Holds b (wordBytes a x)) : readUnit heap.ram.byte b.addr a.ptrSize = x := by
  have hlen : a.ptrSize = b.len := by
    rw [← h.length, wordBytes, length_leBytes]
  have hvalue := Ram.ofBytes_bytesOf a.ptrSize (x : Int)
  rw [← leBytes_eq_bytesOf] at hvalue
  rw [readUnit_ram, hlen, h.2]
  show Ram.ofBytes (leBytes a.ptrSize x) = x
  have hword : (256 : Int) ^ a.ptrSize = a.word := by cases a <;> decide
  rw [hword] at hvalue
  have hmod : (x : Int) % a.word = x := Int.emod_eq_of_lt (by omega) (by omega)
  omega

/-- A look that finds something. -/
theorem wp_look {α : Type} {w : World a} {f : (Nat → UInt8) → Res α} {x : α}
    {Q : α → World a → Prop} {E : Exc → World a → Prop} (h : f w.heap.ram.byte = .ok x)
    (hok : Q x w) : Wp (look f) w Q E := by
  refine wp_ok ?_ hok
  unfold look
  rw [h]
  rfl

/-- `m.VALUE` comes to the first element of an array. -/
theorem getValue_value {ns : Namespace} {n : Nat} {m : Mem} {lib : LoadLib}
    {memory : Nat → UInt8} (haddr : 0 < m.addr) (hbit : m.bitnum = 0)
    (hlen : 2 * memLen m < a.word) :
    getValue a ns n lib memory m .none = loadElement a ns n lib memory m true 0 := by
  have hword := a.word_large
  unfold getValue
  rw [if_neg (by omega), if_neg (by rw [hbit]; omega), getInt_natCast hlen]
  simp only [bind_ok_left, elementIndex]
  rw [if_neg (by split <;> omega)]
  rfl

/-- A word is loaded. -/
theorem wp_memLoad_word {w : World a} {addr x : Nat} {Q : PyObj → World a → Prop}
    {E : Exc → World a → Prop} (hx : x < a.word)
    (h : w.heap.Holds (arrayBlock a 'N' addr 1) (wordBytes a x)) (hok : Q (.int x) w) :
    Wp (memLoad env (arrayObj a 'N' addr 1) .none) w Q E := by
  have hproper := w.heap.proper _ h.1
  have hptr : typeSize a 'N' = a.ptrSize := rfl
  have hptr8 : 0 < a.ptrSize ∧ a.ptrSize ≤ 8 := by cases a <;> decide
  have hword := a.word_large
  have hlen : memLen (arrayObj a 'N' addr 1) = 1 :=
    memLen_arrayObj (by rw [hptr]; omega) (by rw [hptr]; omega)
  have hload : getValue a noNames 0 env.lib w.heap.ram.byte (arrayObj a 'N' addr 1) .none =
      .ok (.int x) := by
    rw [getValue_value hproper.addr_pos rfl (by omega)]
    show Except.ok (PyObj.int (readUnit _ (addr + 0 * a.ptrSize) a.ptrSize)) = _
    have hread : readUnit w.heap.ram.byte addr a.ptrSize = x := readUnit_word hx h
    rw [Nat.zero_mul, Nat.add_zero, hread]
  exact wp_look hload hok

/-! ## Bytes -/

/-- What iterating over bytes gives. -/
def byteItems : List UInt8 → PyItems
  | [] => .stop
  | b :: bs => .next (.int b.toNat) (byteItems bs)

/-- One write for each byte. -/
def byteWrites (addr : Nat) : Nat → List UInt8 → List Write
  | _, [] => []
  | i, b :: bs => ⟨addr + i, [b]⟩ :: byteWrites addr (i + 1) bs

theorem storeAt_byte {lib : BaseLib} {memory : Nat → UInt8} {addr n i : Nat} {b : UInt8}
    (hn : 4 * n < a.word) (hi : i < n) :
    storeAt a lib memory (arrayObj a 'B' addr n) (.int (a.smallInt i)) (.int b.toNat) =
      ⟨[⟨addr + i, [b]⟩], none⟩ := by
  have hsmall : a.smallInt i = i := by
    unfold Arch.smallInt
    dsimp only
    rw [Nat.mod_eq_of_lt (show i < a.word / 2 by omega), if_pos (by omega)]
  have hone : typeSize a 'B' = 1 := rfl
  have hlen : memLen (arrayObj a 'B' addr n) = n :=
    memLen_arrayObj (by rw [hone]; omega) (by rw [hone]; omega)
  have hbyte : leBytes 1 b.toNat = [b] := by
    have hb := b.toNat_lt
    have hmod : ((b.toNat : Int) / 256 ^ 0 % 256).toNat = b.toNat := by
      rw [pow_zero, Int.ediv_one]
      omega
    show [UInt8.ofNat ((b.toNat : Int) / 256 ^ 0 % 256).toNat] = [b]
    rw [hmod, UInt8.ofNat_toNat]
  rw [storeAt, hsmall]
  unfold storeIndex storeEntry
  rw [if_neg (show ¬ (arrayObj a 'B' addr n).readonly = true from Bool.false_ne_true),
    if_neg (show ¬ 0 < (arrayObj a 'B' addr n).bitnum from Nat.lt_irrefl 0), hlen,
    getInt_natCast (by omega)]
  simp only [Store.ofRes, Int.toNat_natCast, elementIndex,
    mpGetIndex_inside (show 2 * n < a.word by omega) hi]
  rw [if_neg (by omega)]
  show Store.write (addr + i * 1) (leBytes 1 b.toNat) = _
  rw [Nat.mul_one, hbyte]
  rfl

theorem storeItems_bytes {lib : BaseLib} {memory : Nat → UInt8} {addr n : Nat}
    (hn : 4 * n < a.word) {bs : List UInt8} {i len : Nat} (hi : i + bs.length ≤ n)
    (hlen : bs.length ≤ len) :
    storeItems a lib memory (arrayObj a 'B' addr n) i len (byteItems bs) =
      ⟨byteWrites addr i bs, none⟩ := by
  induction bs generalizing i len with
  | nil =>
      rw [byteItems, storeItems]
      rfl
  | cons b bs ih =>
      rw [List.length_cons] at hi hlen
      rw [byteItems, storeItems, if_neg (by omega), storeAt_byte hn (by omega),
        ih (by omega) (by omega)]
      rfl

theorem fills_byteWrites {heap : Heap a.word} {b : Block} {bs bytes : List UInt8} {i : Nat}
    (h : heap.Holds b bytes) (hle : i + bs.length ≤ b.len) :
    heap.Fills (writeAll heap (byteWrites b.addr i bs)) b (Heap.splice i bs bytes) := by
  induction bs generalizing heap bytes i with
  | nil =>
      rw [Heap.splice_nil]
      exact Heap.Fills.refl h
  | cons c cs ih =>
      rw [List.length_cons] at hle
      have hone := Heap.fills_write a.word_pos h (show i + [c].length ≤ b.len by
        rw [List.length_singleton]
        omega)
      have hrest := ih hone.self (show i + 1 + cs.length ≤ b.len by omega)
      rw [Heap.splice_cons (by rw [h.length]; omega)] at hrest
      exact hone.trans hrest

/-- `m[:] = value`, for bytes that fill an array; there are fewer than an `int` counts. -/
theorem wp_memStore_bytes {w : World a} {addr : Nat} {v old : List UInt8}
    {Q : Unit → World a → Prop} {E : Exc → World a → Prop}
    (hold : w.heap.Holds (arrayBlock a 'B' addr v.length) old) (hv : v.length ≤ 2 ^ 31)
    (hfit : 4 * v.length < a.word)
    (hok : ∀ heap, w.heap.Fills heap (arrayBlock a 'B' addr v.length) v →
      Q () { w with heap := heap }) :
    Wp (memStore env (arrayObj a 'B' addr v.length) (.slice .none .none .none)
      (.str true v (byteItems v))) w Q E := by
  have hone : typeSize a 'B' = 1 := rfl
  have hlen : memLen (arrayObj a 'B' addr v.length) = v.length :=
    memLen_arrayObj (by rw [hone]; omega) (by rw [hone]; omega)
  -- the slice is the whole array
  have hall : mpSeqGetFastSliceIndexes a v.length .none .none .none = .ok (0, v.length) := by
    have hsigned : a.signed v.length = v.length := a.signed_eq (by omega) (by omega)
    have hint := fastSlice_eq (a := a) (Nat.zero_le v.length) (Nat.le_refl v.length) (by omega)
    unfold mpSeqGetFastSliceIndexes at hint ⊢
    simp only [SliceArg.get, bind_ok_left, getInt_natCast (show 2 * v.length < a.word by omega),
      getInt_natCast (show 2 * 0 < a.word by omega)] at hint ⊢
    rw [hsigned]
    exact hint
  have hstore : ∀ memory, setValue a env.base memory (arrayObj a 'B' addr v.length)
      (.slice .none .none .none) (.str true v (byteItems v)) = ⟨byteWrites addr 0 v, none⟩ := by
    intro memory
    rw [setValue, storeEntry]
    rw [if_neg (show ¬ (arrayObj a 'B' addr v.length).readonly = true from Bool.false_ne_true),
      if_neg (show ¬ 0 < (arrayObj a 'B' addr v.length).bitnum from Nat.lt_irrefl 0), hlen,
      getInt_natCast (by omega)]
    simp only [Store.ofRes, Int.toNat_natCast, hall]
    rw [if_neg (by omega)]
    have hrange : sliceRange 0 v.length = (0, v.length) := by
      unfold sliceRange
      dsimp only
      rw [Nat.zero_mod, if_neg (by omega), Nat.min_eq_left hv, Nat.sub_zero]
    rw [hrange]
    exact storeItems_bytes hfit (by omega) (Nat.le_refl _)
  have hfills := fills_byteWrites hold (show 0 + v.length ≤ 1 * v.length by omega)
  rw [Heap.splice_zero (by rw [hold.length]; exact (Nat.one_mul v.length).le)] at hfills
  exact wp_runStore (hstore _) (hok _ hfills)

/-! ## Copies, texts and GUIDs -/

/-- `bytearray(m)` of an array of bytes. -/
theorem wp_bytearrayOf {w : World a} {addr n : Nat} {v : List UInt8}
    {Q : List UInt8 → World a → Prop} {E : Exc → World a → Prop}
    (h : w.heap.Holds (arrayBlock a 'B' addr n) v) (hok : Q v w) :
    Wp (bytearrayOf (arrayObj a 'B' addr n)) w Q E := by
  have hproper := w.heap.proper _ h.1
  have hpos := hproper.addr_pos
  have hlen := hproper.len_pos
  have hle := hproper.le
  dsimp only [arrayBlock] at hpos hlen hle
  have hsize : (arrayObj a 'B' addr n).size = typeSize a 'B' * n := arrayObj_size (by omega)
  have haddr : (arrayObj a 'B' addr n).addr = addr := rfl
  refine wp_ok ?_ hok
  unfold bytearrayOf
  rw [hsize, haddr, if_neg (by omega)]
  have hread : w.heap.ram.read addr (typeSize a 'B' * n) = v := h.2
  rw [hread]

/-- `m.FREE()`. -/
theorem wp_memFree {w : World a} {m : Mem} {Q : Unit → World a → Prop} {E : Exc → World a → Prop}
    (haddr : 0 < m.addr) (hok : Q () { w with heap := w.heap.free m.addr }) :
    Wp (memFree m) w Q E := by
  unfold memFree
  rw [if_pos (by omega)]
  exact wp_ok rfl hok

/-- `m.VALUE` of a text. -/
theorem wp_memLoad_text {w : World a} {addr n : Nat} {s : List UInt16} {rest : List UInt8}
    {Q : PyObj → World a → Prop} {E : Exc → World a → Prop}
    (h : w.heap.Holds (arrayBlock a 'u' addr n) (unicodeBytes s ++ rest)) (hs : ∀ u ∈ s, u ≠ 0)
    (hok : Q (.str (unicodeToUtf8 s)) w) :
    Wp (memLoad env (arrayObj a 'u' addr n) .none) w Q E := by
  have hproper := w.heap.proper _ h.1
  have hpos := hproper.addr_pos
  have hle := hproper.le
  have htwo : typeSize a 'u' = 2 := rfl
  dsimp only [arrayBlock] at hpos hle
  have hsize : (arrayObj a 'u' addr n).size = typeSize a 'u' * n := arrayObj_size (by omega)
  have hlen : memLen (arrayObj a 'u' addr n) = n :=
    memLen_arrayObj (by rw [htwo]; omega) (by omega)
  rw [htwo] at hle
  refine wp_look ?_ hok
  rw [getValue_value hpos rfl (by rw [hlen]; omega)]
  show Except.ok (PyObj.str (unicodeToUtf8 (unicodeText w.heap.ram.byte addr _))) = _
  rw [hsize]
  have htext := unicodeText_of_holds h hs
  dsimp only [arrayBlock] at htext
  rw [htext]

/-- `guid.VALUE`. -/
theorem wp_memLoad_guid {w : World a} {addr : Nat} {g : List UInt8} {Q : PyObj → World a → Prop}
    {E : Exc → World a → Prop} (h : w.heap.Holds ⟨addr, 16⟩ g)
    (hlen : (env.lib.guidToString g).length = 36) (hok : Q (.str (env.lib.guidToString g)) w) :
    Wp (memLoad env (efiGuidNew addr) .none) w Q E := by
  have hproper := w.heap.proper _ h.1
  have hword := a.word_large
  refine wp_look ?_ hok
  have hone : memLen (efiGuidNew addr) = 1 := by simp [memLen, efiGuidNew]
  rw [getValue_value hproper.addr_pos rfl (by rw [hone]; omega)]
  have hguid : (List.range 16).map (fun k => w.heap.ram.byte (addr + 0 * 16 + k)) = g := h.2
  show (let guid := (List.range 16).map fun k => w.heap.ram.byte (addr + 0 * 16 + k)
    let str := env.lib.guidToString guid
    if str.length = 36 then Except.ok (PyObj.str str) else Except.ok PyObj.none) = _
  rw [hguid]
  dsimp only
  rw [if_pos hlen]

end Objects

end EfiLvgl.Variables
