import EfiLvgl.Lib.Code
import EfiLvgl.Efi.Status
import Mathlib.Data.Bool.AllAny

/-!
# EfiLvgl.Mapping.Csd — the text of a mapping name

`sfsmapping.c` names a volume by its media type, the index of its hardware path and
a text, the *Csd*, to which the nodes of the device path append numbers and strings.
Items alternate between letters and digits: `Digital` says which is next.

A name can be read back: `mapping_name_decodable`. The two number codes are the
numerals in base 25 and 10, the two codes of hexadecimal strings are prefix codes
(`word_prefixFree`), and the change of alphabet separates the items.
-/

namespace EfiLvgl.Mapping

open EfiLvgl.Code

/-- `MTD_TYPE`. -/
inductive MtdType where
  | unknown
  | floppy
  | hardDisk
  | cdRom
  | mtdEnd
  deriving DecidableEq, Repr

/-- `DEVICE_CONSIST_MAPPING_INFO`; of `POOL_PRINT` only the string is read. -/
structure MappingInfo where
  hi : Nat
  mtd : MtdType
  csd : Option (List Char16)
  digital : Bool

/-! ## Printing -/

/-- `CatPrint` of a formatted text: the buffer of `0x1000` bytes holds 2047
characters and the terminator. -/
def catPrint (str : Option (List Char16)) (appendStr : List Char16) : Option (List Char16) :=
  some (str.getD [] ++ appendStr.take 2047)

/-- A number in decimal. -/
def decimal (n : Nat) : List Char16 := (numeral 10 n).map fun d => ch '0' + UInt16.ofNat d

/-- `%ld`: the 64 bits are printed as a signed number. -/
def printLd (num : UInt64) : List Char16 :=
  if num.toNat < 2 ^ 63 then decimal num.toNat else ch '-' :: decimal (2 ^ 64 - num.toNat)

/-- `%d` of a `UINTN`: its lower 32 bits are printed as a signed number. -/
def printD (n : Nat) : List Char16 :=
  if n % 2 ^ 32 < 2 ^ 31 then decimal (n % 2 ^ 32) else ch '-' :: decimal (2 ^ 32 - n % 2 ^ 32)

/-! ## Appending to the Csd -/

/-- `AppendCSDNum2`. -/
def appendCSDNum2 (str : Option (List Char16)) (num : Nat) : Option (List Char16) :=
  let str' := if 0 < num / 25 then appendCSDNum2 str (num / 25) else str
  catPrint str' [UInt16.ofNat (num % 25) + ch 'a']
termination_by num
decreasing_by omega

/-- `AppendCSDNum`. -/
def appendCSDNum (info : MappingInfo) (num : UInt64) : MappingInfo :=
  { info with
    csd := if info.digital then catPrint info.csd (printLd num) else appendCSDNum2 info.csd num.toNat
    digital := !info.digital }

/-- What `AppendCSDStr` prints for one character when `Digital` is set:

    0  1  2  3  4  5  6  7  8  9  a  b  c  d  e  f
    0  16 2  3  4  5  6  7  8  9  10 11 12 13 14 15

Other characters are passed over. -/
def digitalCode (c : Char16) : List Char16 :=
  if c ∈ text ['0', '2', '3', '4', '5', '6', '7', '8', '9'] then [c]
  else if c = ch '1' then text ['1', '6']
  else if ch 'a' ≤ c ∧ c ≤ ch 'f' then [ch '1', c - ch 'a' + ch '0']
  else if ch 'A' ≤ c ∧ c ≤ ch 'F' then [ch '1', c - ch 'A' + ch '0']
  else []

/-- What it prints otherwise:

    0  1  2  3  4  5  6  7  8  9  a  b  c  d  e  f
    a  b  c  d  e  f  g  h  i  j  k  l  m  n  o  p
-/
def letterCode (c : Char16) : List Char16 :=
  if ch '0' ≤ c ∧ c ≤ ch '9' then [c - ch '0' + ch 'a']
  else if ch 'a' ≤ c ∧ c ≤ ch 'f' then [c - ch 'a' + ch 'k']
  else if ch 'A' ≤ c ∧ c ≤ ch 'F' then [c - ch 'A' + ch 'k']
  else []

/-- One character of `AppendCSDStr`; a character without a code prints nothing. -/
def appendCSDChar (digital : Bool) (csd : Option (List Char16)) (c : Char16) :
    Option (List Char16) :=
  let code := if digital then digitalCode c else letterCode c
  if code = [] then csd else catPrint csd code

/-- `AppendCSDStr`. -/
def appendCSDStr (info : MappingInfo) (str : List Char16) : MappingInfo :=
  { info with
    csd := str.foldl (appendCSDChar info.digital) info.csd
    digital := !info.digital }

/-! ## The name -/

/-- `mMTDName`; the table ends at `MTDTypeEnd`. -/
def mtdName : MtdType → Option (List Char16)
  | .unknown => some (text ['F'])
  | .floppy => some (text ['F', 'P'])
  | .hardDisk => some (text ['H', 'D'])
  | .cdRom => some (text ['C', 'D'])
  | .mtdEnd => none

/-- The end of `GetConsistMappingName`: media type, index, Csd, colon. -/
def printName (info : MappingInfo) : List Char16 :=
  let str := match mtdName info.mtd with
    | some name => catPrint none name
    | none => none
  let str := catPrint str (printD info.hi)
  let str := match info.csd with
    | some csd => catPrint str csd
    | none => str
  (catPrint str (text [':'])).getD []

/-! ## Items -/

/-- What a node appends: a number or a string. -/
inductive Item where
  | num (n : UInt64)
  | str (s : List Char16)
  deriving DecidableEq

/-- Append an item. -/
def Item.append (info : MappingInfo) : Item → MappingInfo
  | .num n => appendCSDNum info n
  | .str s => appendCSDStr info s

/-- The mapping info `GetConsistMappingName` starts from. -/
def startInfo (hi : Nat) (mtd : MtdType) : MappingInfo := ⟨hi, mtd, none, false⟩

/-- The name with these items. -/
def nameOf (mtd : MtdType) (hi : Nat) (items : List Item) : List Char16 :=
  printName (items.foldl Item.append (startInfo hi mtd))

/-! ## The text of an item -/

theorem catPrint_getD (str : Option (List Char16)) (t : List Char16) :
    (catPrint str t).getD [] = str.getD [] ++ t.take 2047 := rfl

/-- The base-25 numeral in letters. -/
def letters (n : Nat) : List Char16 := (numeral 25 n).map fun d => UInt16.ofNat d + ch 'a'

theorem appendCSDNum2_getD (str : Option (List Char16)) (num : Nat) :
    (appendCSDNum2 str num).getD [] = str.getD [] ++ letters num := by
  fun_induction appendCSDNum2 str num with
  | case1 num str' ih =>
      rw [catPrint_getD, letters, numeral_div (by omega)]
      by_cases hq : num / 25 = 0
      · simp [str', hq]
      · have hpos : 0 < num / 25 := Nat.pos_of_ne_zero hq
        simp only [str', dif_pos hpos, if_neg hq, ih hpos, letters, List.map_append]
        simp

theorem length_decimal_le {n k : Nat} (hk : 0 < k) (h : n < 10 ^ k) : (decimal n).length ≤ k := by
  rw [decimal, List.length_map, numeral]
  split
  · exact hk
  · rw [List.length_reverse]
    exact (Nat.digits_length_le_iff (by omega) n).mpr h

theorem length_printLd_le (num : UInt64) : (printLd num).length ≤ 21 := by
  have hlt := num.toNat_lt
  rw [printLd]
  split
  · exact Nat.le_trans (length_decimal_le (k := 20) (by omega) (by omega)) (by omega)
  · have hle := length_decimal_le (n := 2 ^ 64 - num.toNat) (k := 20) (by omega) (by omega)
    rw [List.length_cons]
    omega

/-- What an item adds to the Csd. -/
def Item.text (digital : Bool) : Item → List Char16
  | .num n => if digital then printLd n else letters n.toNat
  | .str s => s.flatMap (if digital then digitalCode else letterCode)

theorem length_code_le (digital : Bool) (c : Char16) :
    (if digital then digitalCode c else letterCode c).length ≤ 2 := by
  unfold digitalCode letterCode
  repeat' split
  all_goals simp [EfiLvgl.text]

theorem foldl_appendCSDChar_getD (digital : Bool) (s : List Char16) (csd : Option (List Char16)) :
    (s.foldl (appendCSDChar digital) csd).getD [] =
      csd.getD [] ++ s.flatMap (if digital then digitalCode else letterCode) := by
  induction s generalizing csd with
  | nil => simp
  | cons c s ih =>
      have hlen := length_code_le digital c
      have hcode : (if digital then digitalCode else letterCode) c =
          if digital then digitalCode c else letterCode c := by split <;> rfl
      rw [List.foldl_cons, ih, List.flatMap_cons, hcode, appendCSDChar]
      generalize (if digital then digitalCode c else letterCode c) = code at hlen
      by_cases hnil : code = []
      · simp [hnil]
      · have htake : code.take 2047 = code := List.take_of_length_le (by omega)
        simp [hnil, catPrint_getD, htake]

theorem Item.append_csd (info : MappingInfo) (item : Item) :
    (item.append info).csd.getD [] = info.csd.getD [] ++ item.text info.digital := by
  cases item with
  | num n =>
      have hlen := length_printLd_le n
      have htake : (printLd n).take 2047 = printLd n := List.take_of_length_le (by omega)
      by_cases hd : info.digital = true
      · simp [Item.append, appendCSDNum, Item.text, hd, catPrint_getD, htake]
      · simp [Item.append, appendCSDNum, Item.text, hd, appendCSDNum2_getD]
  | str s =>
      simp only [Item.append, appendCSDStr, Item.text]
      exact foldl_appendCSDChar_getD info.digital s info.csd

theorem Item.append_frame (info : MappingInfo) (item : Item) :
    (item.append info).hi = info.hi ∧ (item.append info).mtd = info.mtd ∧
      (item.append info).digital = !info.digital := by
  cases item <;> exact ⟨rfl, rfl, rfl⟩

/-- The texts of the items, one block an item. -/
def blocks : Bool → List Item → List (List Char16)
  | _, [] => []
  | digital, item :: items => item.text digital :: blocks (!digital) items

/-- Appending items appends their blocks and leaves the rest alone. -/
theorem foldl_append (items : List Item) (info : MappingInfo) :
    (items.foldl Item.append info).csd.getD [] =
        info.csd.getD [] ++ (blocks info.digital items).flatten ∧
      (items.foldl Item.append info).hi = info.hi ∧
      (items.foldl Item.append info).mtd = info.mtd := by
  induction items generalizing info with
  | nil => simp [blocks]
  | cons item items ih =>
      obtain ⟨hhi, hmtd, hdig⟩ := item.append_frame info
      obtain ⟨hcsd, hhi', hmtd'⟩ := ih (item.append info)
      rw [List.foldl_cons]
      refine ⟨?_, hhi'.trans hhi, hmtd'.trans hmtd⟩
      rw [hcsd, Item.append_csd, hdig, blocks, List.flatten_cons, List.append_assoc]

/-! ## Alphabets -/

/-- An upper-case letter. -/
def IsUpper (c : Char16) : Prop := 65 ≤ c.toNat ∧ c.toNat ≤ 90

/-- A decimal digit. -/
def IsDigit (c : Char16) : Prop := 48 ≤ c.toNat ∧ c.toNat ≤ 57

/-- The alphabets of the Csd: lower-case letters, and digits with the minus sign. -/
def alphabet : Bool → Char16 → Prop
  | false, c => 97 ≤ c.toNat ∧ c.toNat ≤ 122
  | true, c => IsDigit c ∨ c = ch '-'

instance : ∀ side c, Decidable (alphabet side c)
  | false, _ => inferInstanceAs (Decidable (_ ∧ _))
  | true, _ => inferInstanceAs (Decidable ((_ ∧ _) ∨ _))

theorem alphabet_disjoint (side : Bool) (c : Char16) (h : alphabet side c) :
    ¬ alphabet (!side) c := by
  have hminus : (ch '-').toNat = 45 := by decide
  cases side with
  | false =>
      rintro (hd | rfl)
      · have h1 := h.1
        have h2 := hd.2
        omega
      · have h1 := h.1
        omega
  | true =>
      intro h'
      have h1 := h'.1
      rcases h with hd | rfl
      · have h2 := hd.2
        omega
      · omega

theorem toNat_digit : ∀ d < 10, (ch '0' + UInt16.ofNat d).toNat = 48 + d := by decide

theorem toNat_letter : ∀ d < 25, (UInt16.ofNat d + ch 'a').toNat = 97 + d := by decide

theorem isDigit_of_mem_decimal {n : Nat} {c : Char16} (hc : c ∈ decimal n) : IsDigit c := by
  obtain ⟨d, hd, rfl⟩ := List.mem_map.mp hc
  have hlt := lt_of_mem_numeral (b := 10) (by omega) hd
  rw [IsDigit, toNat_digit d hlt]
  omega

theorem decimal_ne_nil (n : Nat) : decimal n ≠ [] := by
  rw [decimal, Ne, List.map_eq_nil_iff]
  exact numeral_ne_nil 10 n

/-- Digits that can be read back make numerals that can be read back. -/
theorem map_numeral_inj {b : Nat} (hb : 1 < b) {f : Nat → Char16} {g : Char16 → Nat}
    (hg : ∀ d < b, g (f d) = d) {n m : Nat}
    (h : (numeral b n).map f = (numeral b m).map f) : n = m := by
  have hback : ∀ k, ((numeral b k).map f).map g = numeral b k := by
    intro k
    rw [List.map_map]
    conv_rhs => rw [← List.map_id (numeral b k)]
    exact List.map_congr_left fun d hd => hg d (lt_of_mem_numeral hb hd)
  refine numeral_injective b ?_
  rw [← hback n, ← hback m, h]

theorem decimal_injective {n m : Nat} (h : decimal n = decimal m) : n = m := by
  refine map_numeral_inj (b := 10) (g := fun c => c.toNat - 48) (by omega) ?_ h
  intro d hd
  simp only [toNat_digit d hd]
  omega

theorem letters_injective {n m : Nat} (h : letters n = letters m) : n = m := by
  refine map_numeral_inj (b := 25) (g := fun c => c.toNat - 97) (by omega) ?_ h
  intro d hd
  simp only [toNat_letter d hd]
  omega

/-- A minus sign tells the two halves of the 64-bit numbers apart. -/
theorem printLd_injective {n m : UInt64} (h : printLd n = printLd m) : n = m := by
  have hn := n.toNat_lt
  have hm := m.toNat_lt
  have hsign : ∀ k : Nat, ∀ t, decimal k ≠ ch '-' :: t := by
    intro k t hk
    -- a minus sign is no digit
    have hdig := isDigit_of_mem_decimal (n := k) (c := ch '-') (by simp [hk])
    exact absurd hdig.1 (by decide)
  refine UInt64.toNat_inj.mp ?_
  unfold printLd at h
  split at h
  · split at h
    · exact decimal_injective h
    · exact absurd h (hsign _ _)
  · split at h
    · exact absurd h.symm (hsign _ _)
    · rw [List.cons.injEq] at h
      have heq := decimal_injective h.2
      omega

/-! ## Hexadecimal strings -/

/-- The hexadecimal digits, in both cases. -/
def hexDigits : List Char16 :=
  text ['0', '1', '2', '3', '4', '5', '6', '7', '8', '9', 'a', 'b', 'c', 'd', 'e', 'f',
    'A', 'B', 'C', 'D', 'E', 'F']

/-- Lower case. -/
def lower (c : Char16) : Char16 := if ch 'A' ≤ c ∧ c ≤ ch 'F' then c - ch 'A' + ch 'a' else c

/-- The digit of a value. -/
def hexChar (v : Fin 16) : Char16 := hexDigits.getD v.val 0

/-- The value of a digit. -/
def hexVal (c : Char16) : Fin 16 := Fin.ofNat 16 (hexDigits.take 16 |>.idxOf (lower c))

theorem lower_eq_hexChar : ∀ c ∈ hexDigits, lower c = hexChar (hexVal c) :=
  List.all_iff_forall_prop.mp (by decide)

/-- The code word of a value, in letters or in digits. -/
def word (digital : Bool) (v : Fin 16) : List Char16 :=
  if digital then digitalCode (hexChar v) else letterCode (hexChar v)

theorem code_eq_word (digital : Bool) :
    ∀ c ∈ hexDigits, (if digital then digitalCode else letterCode) c =
      word digital (hexVal c) := by
  cases digital <;> exact List.all_iff_forall_prop.mp (by decide)

theorem word_ne_nil : ∀ digital v, word digital v ≠ [] := by decide

theorem word_prefixFree (digital : Bool) : PrefixFree (word digital) := by
  cases digital <;> (unfold PrefixFree; decide)

theorem word_alphabet (digital : Bool) (v : Fin 16) : ∀ c ∈ word digital v, alphabet digital c := by
  have hall : ∀ digital v, (word digital v).all fun c => alphabet digital c := by decide
  exact List.all_iff_forall_prop.mp (hall digital v)

theorem flatMap_code {digital : Bool} {s : List Char16} (hs : ∀ c ∈ s, c ∈ hexDigits) :
    s.flatMap (if digital then digitalCode else letterCode) =
      (s.map hexVal).flatMap (word digital) := by
  rw [List.flatMap_map]
  exact List.flatMap_congr fun c hc => code_eq_word digital c (hs c hc)

/-! ## Reading a name back -/

/-- A number, or a non-empty string of hexadecimal digits. -/
def Item.Wf : Item → Prop
  | .num _ => True
  | .str s => s ≠ [] ∧ ∀ c ∈ s, c ∈ hexDigits

instance : ∀ item : Item, Decidable item.Wf
  | .num _ => .isTrue trivial
  | .str s => decidable_of_iff (s ≠ [] ∧ s.all (· ∈ hexDigits)) (by simp [Item.Wf])

/-- Numbers and strings are told apart. -/
def Item.isNum : Item → Bool
  | .num _ => true
  | .str _ => false

/-- The sequences have the same kind of item at each position they share. -/
def SameKinds (items items' : List Item) : Prop :=
  ∀ (i : Nat) (a b : Item), items[i]? = some a → items'[i]? = some b → a.isNum = b.isNum

/-- The item with its string in lower case. -/
def Item.lower : Item → Item
  | .num n => .num n
  | .str s => .str (s.map Mapping.lower)

theorem Item.text_ne_nil {digital : Bool} {item : Item} (h : item.Wf) : item.text digital ≠ [] := by
  cases item with
  | num n =>
      cases digital with
      | false => simpa [Item.text, letters] using numeral_ne_nil 25 n.toNat
      | true =>
          simp only [Item.text, if_true, printLd]
          split
          · exact decimal_ne_nil _
          · simp
  | str s =>
      obtain ⟨hne, hhex⟩ := h
      cases s with
      | nil => exact absurd rfl hne
      | cons c s =>
          intro hnil
          rw [Item.text, flatMap_code hhex, List.map_cons, List.flatMap_cons] at hnil
          exact word_ne_nil _ _ (List.append_eq_nil_iff.mp hnil).1

theorem Item.text_alphabet {digital : Bool} {item : Item} (h : item.Wf) :
    ∀ c ∈ item.text digital, alphabet digital c := by
  intro c hc
  cases item with
  | num n =>
      cases digital with
      | false =>
          simp only [Item.text, Bool.false_eq_true, if_false, letters, List.mem_map] at hc
          obtain ⟨d, hd, rfl⟩ := hc
          have hlt := lt_of_mem_numeral (b := 25) (by omega) hd
          rw [alphabet, toNat_letter d hlt]
          omega
      | true =>
          simp only [Item.text, if_true, printLd] at hc
          split at hc
          · exact Or.inl (isDigit_of_mem_decimal hc)
          · rcases List.mem_cons.mp hc with rfl | hc
            · exact Or.inr rfl
            · exact Or.inl (isDigit_of_mem_decimal hc)
  | str s =>
      rw [Item.text, flatMap_code h.2] at hc
      obtain ⟨v, -, hv⟩ := List.mem_flatMap.mp hc
      exact word_alphabet digital v c hv

/-- Within one kind the text of an item determines it. -/
theorem Item.text_inj {digital : Bool} {a b : Item} (ha : a.Wf) (hb : b.Wf)
    (hkind : a.isNum = b.isNum) (h : a.text digital = b.text digital) : a.lower = b.lower := by
  cases a with
  | num n =>
      cases b with
      | num m =>
          cases digital with
          | false =>
              simp only [Item.text, Bool.false_eq_true, if_false] at h
              rw [UInt64.toNat_inj.mp (letters_injective h)]
          | true =>
              simp only [Item.text, if_true] at h
              rw [printLd_injective h]
      | str s => simp [Item.isNum] at hkind
  | str s =>
      cases b with
      | num m => simp [Item.isNum] at hkind
      | str t =>
          simp only [Item.text, flatMap_code ha.2, flatMap_code hb.2] at h
          -- the words are prefix-free, so the text tells the digits apart
          have hval : s.map hexVal = t.map hexVal :=
            (word_prefixFree digital).flatMap_injective (word_ne_nil digital) h
          have hlower : ∀ u : List Char16, (∀ c ∈ u, c ∈ hexDigits) →
              u.map Mapping.lower = (u.map hexVal).map hexChar := by
            intro u hu
            rw [List.map_map]
            exact List.map_congr_left fun c hc => lower_eq_hexChar c (hu c hc)
          rw [Item.lower, Item.lower, hlower s ha.2, hlower t hb.2, hval]

theorem blocks_alternating {items : List Item} (h : ∀ item ∈ items, item.Wf) (digital : Bool) :
    Alternating alphabet digital (blocks digital items) := by
  induction items generalizing digital with
  | nil => trivial
  | cons item items ih =>
      have hitem := h item (by simp)
      exact ⟨item.text_ne_nil hitem, item.text_alphabet hitem,
        ih (fun i hi => h i (by simp [hi])) (!digital)⟩

/-- Equal blocks come from equal items, where the kinds agree. -/
theorem items_eq_of_blocks {items items' : List Item} (h : ∀ item ∈ items, item.Wf)
    (h' : ∀ item ∈ items', item.Wf) (hkind : SameKinds items items') {digital : Bool}
    (heq : blocks digital items = blocks digital items') :
    items.map Item.lower = items'.map Item.lower := by
  induction items generalizing items' digital with
  | nil =>
      cases items' with
      | nil => rfl
      | cons b items' => simp [blocks] at heq
  | cons a items ih =>
      cases items' with
      | nil => simp [blocks] at heq
      | cons b items' =>
          simp only [blocks, List.cons.injEq] at heq
          have hab : a.lower = b.lower :=
            Item.text_inj (h a (by simp)) (h' b (by simp)) (hkind 0 a b rfl rfl) heq.1
          have hrest := ih (fun i hi => h i (by simp [hi])) (fun i hi => h' i (by simp [hi]))
            (fun i c d => hkind (i + 1) c d) heq.2
          rw [List.map_cons, List.map_cons, hab, hrest]

theorem foldl_append_start (mtd : MtdType) (hi : Nat) (items : List Item) :
    (items.foldl Item.append (startInfo hi mtd)).csd.getD [] = (blocks false items).flatten := by
  simpa [startInfo] using (foldl_append items (startInfo hi mtd)).1

/-- The media part of the name. -/
def mtdText (mtd : MtdType) : List Char16 := (mtdName mtd).getD []

theorem length_printD_le (n : Nat) : (printD n).length ≤ 11 := by
  have hlt : n % 2 ^ 32 < 2 ^ 32 := Nat.mod_lt _ (by omega)
  rw [printD]
  split
  · exact Nat.le_trans (length_decimal_le (k := 10) (by omega) (by omega)) (by omega)
  · have hle := length_decimal_le (n := 2 ^ 32 - n % 2 ^ 32) (k := 10) (by omega) (by omega)
    rw [List.length_cons]
    omega

theorem printD_of_lt {n : Nat} (hn : n < 2 ^ 31) : printD n = decimal n := by
  rw [printD, Nat.mod_eq_of_lt (by omega), if_pos hn]

theorem printName_eq (info : MappingInfo) :
    printName info = mtdText info.mtd ++ (printD info.hi ++ ((info.csd.getD []).take 2047 ++
      text [':'])) := by
  have hlen := length_printD_le info.hi
  have hdec : (printD info.hi).take 2047 = printD info.hi :=
    List.take_of_length_le (by omega)
  have hmtd : (match mtdName info.mtd with
      | some name => catPrint none name
      | none => none).getD [] = mtdText info.mtd := by
    cases info.mtd <;> rfl
  have hcolon : (text [':']).take 2047 = text [':'] := rfl
  rw [printName, catPrint_getD, hcolon]
  cases hcsd : info.csd with
  | none => simp [catPrint_getD, hmtd, hdec]
  | some csd => simp [catPrint_getD, hmtd, hdec]

theorem mtdText_upper (mtd : MtdType) : ∀ c ∈ mtdText mtd, IsUpper c := by
  unfold IsUpper
  cases mtd <;> exact List.all_iff_forall_prop.mp (by decide)

theorem mtdText_injective {mtd mtd' : MtdType} (h : mtdText mtd = mtdText mtd') : mtd = mtd' := by
  revert h
  cases mtd <;> cases mtd' <;> decide

/-- The three parts of a name can be told apart, whatever text follows the index, as
long as it does not begin with a digit. -/
theorem name_parts_inj {mtd mtd' : MtdType} {hi hi' : Nat} {csd csd' : List Char16}
    (hcsd : Leaves IsDigit csd) (hcsd' : Leaves IsDigit csd')
    (h : mtdText mtd ++ (decimal hi ++ csd) = mtdText mtd' ++ (decimal hi' ++ csd')) :
    mtd = mtd' ∧ hi = hi' ∧ csd = csd' := by
  have hleaves : ∀ (k : Nat) (t : List Char16), Leaves IsUpper (decimal k ++ t) := by
    intro k t x hx hup
    cases hk : decimal k with
    | nil => exact decimal_ne_nil k hk
    | cons y ys =>
        rw [hk, List.cons_append, List.head?_cons, Option.some.injEq] at hx
        subst hx
        have hdig := isDigit_of_mem_decimal (n := k) (c := y) (by simp [hk])
        have h1 := hdig.2
        have h2 := hup.1
        omega
  obtain ⟨hmtd, hrest⟩ := append_inj_of_alphabet (mtdText_upper mtd) (mtdText_upper mtd')
    (hleaves hi csd) (hleaves hi' csd') h
  obtain ⟨hdec, hcsd''⟩ := append_inj_of_alphabet (fun c hc => isDigit_of_mem_decimal hc)
    (fun c hc => isDigit_of_mem_decimal hc) hcsd hcsd' hrest
  exact ⟨mtdText_injective hmtd, decimal_injective hdec, hcsd''⟩

theorem blocks_leaves {items : List Item} (h : ∀ item ∈ items, item.Wf) :
    Leaves IsDigit ((blocks false items).flatten ++ text [':']) := by
  intro x hx hdig
  have hleaves := (blocks_alternating h false).leaves alphabet_disjoint
  cases hflat : (blocks false items).flatten with
  | nil =>
      rw [hflat, List.nil_append] at hx
      obtain rfl : ch ':' = x := by simpa [text] using hx
      exact absurd hdig.2 (by decide)
  | cons y ys =>
      rw [hflat, List.cons_append, List.head?_cons, Option.some.injEq] at hx
      subst hx
      exact hleaves y (by rw [hflat]; rfl) (Or.inl hdig)

/-- A mapping name determines the media type, the index and, when the kinds agree at
each position, the items up to the case of their strings. -/
theorem mapping_name_decodable {mtd mtd' : MtdType} {hi hi' : Nat} {items items' : List Item}
    (hhi : hi < 2 ^ 31) (hhi' : hi' < 2 ^ 31)
    (hwf : ∀ item ∈ items, item.Wf) (hwf' : ∀ item ∈ items', item.Wf)
    (hfits : ((items.foldl Item.append (startInfo hi mtd)).csd.getD []).length ≤ 2047)
    (hfits' : ((items'.foldl Item.append (startInfo hi' mtd')).csd.getD []).length ≤ 2047)
    (hkind : SameKinds items items') (heq : nameOf mtd hi items = nameOf mtd' hi' items') :
    mtd = mtd' ∧ hi = hi' ∧ items.map Item.lower = items'.map Item.lower := by
  have hname : ∀ (m : MtdType) (k : Nat) (is : List Item), k < 2 ^ 31 →
      ((is.foldl Item.append (startInfo k m)).csd.getD []).length ≤ 2047 →
      nameOf m k is = mtdText m ++ (decimal k ++ ((blocks false is).flatten ++ text [':'])) := by
    intro m k is hk hfit
    obtain ⟨-, hhi, hmtd⟩ := foldl_append is (startInfo k m)
    rw [nameOf, printName_eq, hhi, hmtd, List.take_of_length_le hfit, foldl_append_start]
    exact congrArg (fun t => _ ++ (t ++ _)) (printD_of_lt hk)
  -- both names are now in three parts, over alphabets that do not meet
  rw [hname mtd hi items hhi hfits, hname mtd' hi' items' hhi' hfits'] at heq
  obtain ⟨hmtd, hhi'', hcsd⟩ := name_parts_inj (blocks_leaves hwf) (blocks_leaves hwf') heq
  have hblocks : blocks false items = blocks false items' :=
    (blocks_alternating hwf false).flatten_inj alphabet_disjoint (blocks_alternating hwf' false)
      (List.append_cancel_right hcsd)
  exact ⟨hmtd, hhi'', items_eq_of_blocks hwf hwf' hkind hblocks⟩

/-- `HD0b1011f:` names partition 1 with the string `ab`, in either case. -/
theorem mapping_name_decodable_cases :
    nameOf .hardDisk 0 [.num 1, .str (text ['a', 'b']), .num 5] =
        nameOf .hardDisk 0 [.num 1, .str (text ['A', 'B']), .num 5] ∧
      [Item.num 1, .str (text ['a', 'b']), .num 5].map Item.lower =
        [Item.num 1, .str (text ['A', 'B']), .num 5].map Item.lower := by
  have heq : nameOf .hardDisk 0 [.num 1, .str (text ['a', 'b']), .num 5] =
      nameOf .hardDisk 0 [.num 1, .str (text ['A', 'B']), .num 5] := by decide +kernel
  refine ⟨heq, (mapping_name_decodable (by decide) (by decide) (by decide) (by decide)
    (by decide +kernel) (by decide +kernel) ?_ heq).2.2⟩
  intro i a b ha hb
  match i with
  | 0 => cases ha; cases hb; rfl
  | 1 => cases ha; cases hb; rfl
  | 2 => cases ha; cases hb; rfl
  | _ + 3 => simp at ha

end EfiLvgl.Mapping
