import EfiLvgl.Mapping.Stack
import Mathlib.Logic.Encodable.Basic
import Mathlib.Logic.Equiv.List

/-!
# EfiLvgl.Mapping.Lookup — volumes found by their names

A name keeps of a device path the index of its hardware part, the media type and the
Csd; what the table `DevPathConsistMappingTable` has no entry for is dropped by
`DevPathSerialDefault`. Two different paths can therefore share a name, for example
two namespaces of one NVMe controller (`nvme_namespaces_share_name`), and a look-up
by name then returns the first of them.

`volume_names_identify` says what does hold: a name stands for exactly one value of
what it keeps (`Kept`), and a handle that shares it with no other is found.
-/

namespace EfiLvgl.Mapping

open EfiLvgl.Code EfiLvgl.CString

/-- `DevicePathCompare` is a total order that is 0 only for equal paths. -/
structure IsPathOrder (devicePathCompare : DevicePath → DevicePath → Int) : Prop where
  zero_iff : ∀ a b, devicePathCompare a b = 0 ↔ a = b
  swap : ∀ a b, devicePathCompare a b < 0 ↔ 0 < devicePathCompare b a
  trans : ∀ a b c, devicePathCompare a b ≤ 0 → devicePathCompare b c ≤ 0 →
    devicePathCompare a c ≤ 0

/-! ## The entries of the table -/

section Table

variable {devicePathCompare : DevicePath → DevicePath → Int}

/-- A round adds the hardware path of a volume or block device that is not there yet. -/
theorem mem_addHandle {table : List DevicePath} {handle : Handle} {entry : DevicePath}
    (order : IsPathOrder devicePathCompare) :
    entry ∈ addHandle devicePathCompare table handle ↔
      entry ∈ table ∨ ((handle.blockIo || handle.simpleFileSystem) = true ∧
        ∃ path, handle.devicePath = some path ∧ entry = getHIDevicePath path) := by
  rw [addHandle]
  cases hpath : handle.devicePath with
  | none => simp
  | some path =>
      by_cases hproto : (handle.blockIo || handle.simpleFileSystem) = true
      · simp only [hproto, if_true]
        split
        · next hany =>
            obtain ⟨e, hmem, he⟩ := List.any_eq_true.mp hany
            have heq : e = getHIDevicePath path := (order.zero_iff _ _).mp (by simpa using he)
            constructor
            · exact Or.inl
            · rintro (hin | ⟨-, p, hp, rfl⟩)
              · exact hin
              · rw [Option.some.injEq] at hp
                subst hp
                exact heq ▸ hmem
        · simp
      · simp [hproto]

theorem mem_foldl_addHandle (order : IsPathOrder devicePathCompare) (handles : List Handle)
    (table : List DevicePath) (entry : DevicePath) :
    entry ∈ handles.foldl (addHandle devicePathCompare) table ↔
      entry ∈ table ∨ ∃ handle ∈ handles, (handle.blockIo || handle.simpleFileSystem) = true ∧
        ∃ path, handle.devicePath = some path ∧ entry = getHIDevicePath path := by
  induction handles generalizing table with
  | nil => simp
  | cons handle handles ih =>
      rw [List.foldl_cons, ih, mem_addHandle order]
      simp only [List.mem_cons, exists_eq_or_imp, or_assoc]

theorem length_foldl_addHandle_le (handles : List Handle) (table : List DevicePath) :
    (handles.foldl (addHandle devicePathCompare) table).length ≤ table.length + handles.length := by
  induction handles generalizing table with
  | nil => simp
  | cons handle handles ih =>
      have hstep : (addHandle devicePathCompare table handle).length ≤ table.length + 1 := by
        rw [addHandle]
        repeat' split
        all_goals simp
      have hrest := ih (addHandle devicePathCompare table handle)
      rw [List.foldl_cons, List.length_cons]
      omega

/-- The table holds the hardware path of every volume. -/
theorem mem_table (order : IsPathOrder devicePathCompare) {handles : List Handle}
    {handle : Handle} (hmem : handle ∈ handles) (hsfs : handle.simpleFileSystem = true)
    {path : DevicePath} (hpath : handle.devicePath = some path) :
    getHIDevicePath path ∈ consistMappingTableInit devicePathCompare handles := by
  rw [consistMappingTableInit, List.mem_mergeSort, mem_foldl_addHandle order]
  exact Or.inr ⟨handle, hmem, by simp [hsfs], path, hpath, rfl⟩

theorem length_table_le (devicePathCompare : DevicePath → DevicePath → Int)
    (handles : List Handle) :
    (consistMappingTableInit devicePathCompare handles).length ≤ handles.length := by
  rw [consistMappingTableInit, List.length_mergeSort]
  simpa using length_foldl_addHandle_le handles []

end Table

/-! ## What a name keeps -/

/-- What the name of a volume keeps of its device path. -/
structure Kept where
  hiPath : DevicePath
  mtd : MtdType
  csd : List Char16
  deriving DecidableEq

/-- The kept part of a path that does not show the stack. -/
def kept (platform : Platform) (path : DevicePath) : Kept where
  hiPath := getHIDevicePath path
  mtd := pathMtd platform path path .unknown
  csd := (csdText platform (fun _ => []) path).take 2047

/-- A volume that the naming has an answer for: a well-formed device path, no node
that shows the stack, and every USB interface that is asked for is found. -/
structure Nameable (platform : Platform) (handle : Handle) (path : DevicePath) : Prop where
  sfs : handle.simpleFileSystem = true
  devicePath : handle.devicePath = some path
  wellFormed : WellFormed path
  plain : ∀ node ∈ path, node.serialiser.readsStack = false
  lookups : ∀ node ∈ path, lookupFails platform path node = false

theorem Nameable.of_devicePath {platform : Platform} {handle : Handle} {path : DevicePath}
    (h : ∃ p, Nameable platform handle p) (hpath : handle.devicePath = some path) :
    Nameable platform handle path := by
  obtain ⟨p, hp⟩ := h
  have heq := hp.devicePath
  rw [hpath, Option.some.injEq] at heq
  exact heq ▸ hp

/-- The numbers and strings of a path. -/
def keptItems (platform : Platform) (path : DevicePath) : List Item :=
  pathItems platform (fun _ => []) 0 path

/-- Numbers and non-empty hexadecimal strings that fit the buffer. -/
structure Readable (platform : Platform) (path : DevicePath) : Prop where
  items : ∀ item ∈ keptItems platform path, item.Wf
  fits : (csdText platform (fun _ => []) path).length ≤ 2047

/-- Where the Csd can be read back, names that keep the same keep the same items. -/
theorem items_eq_of_kept {platform : Platform} {path path' : DevicePath}
    (hr : Readable platform path) (hr' : Readable platform path')
    (hkind : SameKinds (keptItems platform path) (keptItems platform path'))
    (h : kept platform path = kept platform path') :
    (keptItems platform path).map Item.lower = (keptItems platform path').map Item.lower := by
  have hcsd : (csdText platform (fun _ => []) path).take 2047 =
      (csdText platform (fun _ => []) path').take 2047 := congrArg Kept.csd h
  rw [List.take_of_length_le hr.fits, List.take_of_length_le hr'.fits] at hcsd
  have hblocks := (blocks_alternating hr.items false).flatten_inj alphabet_disjoint
    (blocks_alternating hr'.items false) hcsd
  exact items_eq_of_blocks hr.items hr'.items hkind hblocks

/-- The items of a node that does not show the stack begin with a number. -/
theorem Serialiser.items_head_isNum {s : Serialiser} (h : s.readsStack = false)
    (platform : Platform) (buffer : List Char16) (node : DevicePathNode) :
    ∀ item, (s.items platform buffer node).head? = some item → item.isNum = true := by
  intro item hitem
  cases s with
  | acpi =>
      simp only [Serialiser.items] at hitem
      split at hitem
      · simp at hitem
        subst hitem
        rfl
      · simp at hitem
  | iScsi =>
      simp only [Serialiser.items] at hitem
      split at hitem
      · simp at hitem
        subst hitem
        rfl
      · simp at hitem
  | f1394 | macAddr | ipv4 | ipv6 | infiniBand | vendor => cases h
  | default => simp [Serialiser.items] at hitem
  | _ =>
      simp only [Serialiser.items, List.head?_cons, Option.some.injEq] at hitem
      subst hitem
      rfl

theorem pathItems_head_isNum {nodes : List DevicePathNode}
    (h : ∀ node ∈ nodes, node.serialiser.readsStack = false) (platform : Platform)
    (stack : Stack) (i : Nat) :
    ∀ item, (pathItems platform stack i nodes).head? = some item → item.isNum = true := by
  induction nodes generalizing i with
  | nil => simp [pathItems]
  | cons node nodes ih =>
      intro item hitem
      rw [pathItems, List.head?_append] at hitem
      cases hhead : (node.serialiser.items platform (stack i) node).head? with
      | none =>
          rw [hhead, Option.none_or] at hitem
          exact ih (fun n hn => h n (by simp [hn])) (i + 1) item hitem
      | some first =>
          rw [hhead, Option.some_or, Option.some.injEq] at hitem
          subst hitem
          exact Serialiser.items_head_isNum (h node (by simp)) platform (stack i) node first hhead

/-- The Csd of such a path does not begin with a digit. -/
theorem csdText_leaves {path : DevicePath}
    (h : ∀ node ∈ path, node.serialiser.readsStack = false) (platform : Platform) :
    Leaves IsDigit ((csdText platform (fun _ => []) path).take 2047 ++ text [':']) := by
  intro x hx hdig
  have hhead := pathItems_head_isNum h platform (fun _ => []) 0
  have hcolon : ¬ IsDigit (ch ':') := fun h => absurd h.2 (by decide)
  cases hitems : pathItems platform (fun _ => []) 0 path with
  | nil =>
      obtain rfl : ch ':' = x := by simpa [csdText, hitems, blocks, text] using hx
      exact hcolon hdig
  | cons item items =>
      rw [hitems] at hhead
      have hnum : item.isNum = true := hhead item rfl
      have hwf : item.Wf := by
        cases item with
        | num n => trivial
        | str s => cases hnum
      cases htext : item.text false with
      | nil => exact Item.text_ne_nil hwf htext
      | cons c cs =>
          obtain rfl : c = x := by simpa [csdText, hitems, blocks, htext] using hx
          have hletter : alphabet false c := item.text_alphabet hwf c (by simp [htext])
          exact alphabet_disjoint false c hletter (Or.inl hdig)

/-! ## Names and what they keep -/

theorem name_none {v : Handle} (h : v.devicePath = none) (platform : Platform)
    (devicePathCompare : DevicePath → DevicePath → Int) (stack : Stack) (table : List DevicePath) :
    v.name platform devicePathCompare stack table = .error .assertion := by
  simp only [Handle.name, h]

theorem name_some {v : Handle} {path : DevicePath} (h : v.devicePath = some path)
    (platform : Platform) (devicePathCompare : DevicePath → DevicePath → Int) (stack : Stack)
    (table : List DevicePath) : v.name platform devicePathCompare stack table =
      .ok (getConsistMappingName platform devicePathCompare stack path table) := by
  simp only [Handle.name, h]

section Names

variable {platform : Platform} {devicePathCompare : DevicePath → DevicePath → Int}
  {handles : List Handle} {handle handle' : Handle} {path path' : DevicePath}

/-- The name of a volume: the index of its hardware path, its media type, its Csd. -/
theorem name_eq (order : IsPathOrder devicePathCompare) (hmem : handle ∈ handles)
    (hn : Nameable platform handle path) :
    ∃ index, ∃ hlt : index < (consistMappingTableInit devicePathCompare handles).length,
      (consistMappingTableInit devicePathCompare handles).get ⟨index, hlt⟩ =
        getHIDevicePath path ∧
      (consistMappingTableInit devicePathCompare handles).findIdx? (fun entry =>
        devicePathCompare entry (getHIDevicePath path) = 0) = some index ∧
      ∀ stack, handle.name platform devicePathCompare stack
          (consistMappingTableInit devicePathCompare handles) =
        .ok (some (mtdText (kept platform path).mtd ++ (printD index ++
          ((kept platform path).csd ++ text [':'])))) := by
  have hin := mem_table order hmem hn.sfs hn.devicePath
  generalize consistMappingTableInit devicePathCompare handles = table at hin
  have hnone : path.any (lookupFails platform path) = false := by
    rw [List.any_eq_false]
    intro node hnode
    simp [hn.lookups node hnode]
  cases hidx : table.findIdx? fun entry =>
      decide (devicePathCompare entry (getHIDevicePath path) = 0) with
  | none =>
      -- the handle's own hardware path is in the table
      have hne := List.findIdx?_eq_none_iff.mp hidx _ hin
      simp [(order.zero_iff _ _).mpr rfl] at hne
  | some index =>
      obtain ⟨hlt, hp, -⟩ := List.findIdx?_eq_some_iff_getElem.mp hidx
      refine ⟨index, hlt, (order.zero_iff _ _).mp (by simpa using hp), rfl, fun stack => ?_⟩
      -- no node reads the stack, so the name is that of an empty one
      rw [name_some hn.devicePath, getConsistMappingName_eq, hidx]
      simp only [hnone, Bool.false_eq_true, if_false, kept, csdText]
      rw [pathItems_of_not_readsStack hn.plain platform stack (fun _ => [])]

/-- Two volumes have the same name exactly when their names keep the same. -/
theorem name_eq_iff (order : IsPathOrder devicePathCompare) (hcount : handles.length ≤ 2 ^ 31)
    (hmem : handle ∈ handles) (hn : Nameable platform handle path)
    (hmem' : handle' ∈ handles) (hn' : Nameable platform handle' path') (stack stack' : Stack) :
    handle.name platform devicePathCompare stack
        (consistMappingTableInit devicePathCompare handles) =
      handle'.name platform devicePathCompare stack'
        (consistMappingTableInit devicePathCompare handles) ↔
      kept platform path = kept platform path' := by
  obtain ⟨index, hlt, hget, hidx, hname⟩ := name_eq order hmem hn
  obtain ⟨index', hlt', hget', hidx', hname'⟩ := name_eq order hmem' hn'
  have hlen := length_table_le devicePathCompare handles
  rw [hname, hname', Except.ok.injEq, Option.some.injEq]
  constructor
  · intro heq
    -- the index is below the number of handles, so it is printed without a sign
    rw [printD_of_lt (by omega), printD_of_lt (by omega)] at heq
    obtain ⟨hmtd, hindex, hcsd⟩ := name_parts_inj (csdText_leaves hn.plain platform)
      (csdText_leaves hn'.plain platform) heq
    subst hindex
    have hhi : getHIDevicePath path = getHIDevicePath path' := hget.symm.trans hget'
    have htext : (kept platform path).csd = (kept platform path').csd :=
      List.append_cancel_right hcsd
    simp only [kept, Kept.mk.injEq] at hmtd htext ⊢
    exact ⟨hhi, hmtd, htext⟩
  · intro heq
    have hhi : getHIDevicePath path = getHIDevicePath path' := congrArg Kept.hiPath heq
    rw [hhi, hidx', Option.some.injEq] at hidx
    rw [heq, hidx]

end Names

/-! ## The look-ups -/

/-- The loop of `GetHandleFromMapName` finds a handle that alone has the name. -/
theorem findMapName_eq {name : Nat → Handle → Except Stop (Option (List Char16))}
    {mapName : List Char16} {handle : Handle} {handles : List Handle} (hmem : handle ∈ handles)
    (hname : ∀ i, name i handle = .ok (some mapName))
    (hnamed : ∀ h ∈ handles, ∀ i, ∃ found, name i h = .ok found)
    (hunique : ∀ h ∈ handles, ∀ i, name i h = .ok (some mapName) → h = handle) (i : Nat) :
    findMapName name mapName i handles = .ok (some handle) := by
  induction handles generalizing i with
  | nil => simp at hmem
  | cons h handles ih =>
      obtain ⟨found, hfound⟩ := hnamed h (by simp) i
      simp only [findMapName, hfound]
      by_cases hh : found = some mapName
      · rw [if_pos hh, hunique h (by simp) i (hfound.trans (congrArg _ hh))]
      · rw [if_neg hh]
        have hne : handle ≠ h := by
          rintro rfl
          exact hh (Except.ok.inj (hfound.symm.trans (hname i)))
        have hrest := List.mem_of_ne_of_mem hne hmem
        exact ih hrest (fun h' hh' => hnamed h' (by simp [hh']))
          (fun h' hh' => hunique h' (by simp [hh'])) (i + 1)

/-- The loop of `UsfOpenRoot` opens its volume, if it opens. -/
theorem openRootLoop_eq {name : Nat → Handle → Except Stop (Option (List Char16))}
    {rootName : List Char16} {handle : Handle} {handles : List Handle} {root : Ptr}
    (hmem : handle ∈ handles) (hname : ∀ i, name i handle = .ok (some rootName))
    (hnamed : ∀ h ∈ handles, ∀ i, ∃ found, name i h = .ok found)
    (hunique : ∀ h ∈ handles, ∀ i, name i h = .ok (some rootName) → h = handle)
    (hopen : handle.openVolume = .ok root) (i : Nat) (status : EfiStatus) :
    openRootLoop name rootName i handles status = .ok (.success, some root) := by
  induction handles generalizing i status with
  | nil => simp at hmem
  | cons h handles ih =>
      obtain ⟨found, hfound⟩ := hnamed h (by simp) i
      simp only [openRootLoop, hfound]
      by_cases hh : found = some rootName
      · rw [if_pos hh, hunique h (by simp) i (hfound.trans (congrArg _ hh)), hopen]
      · rw [if_neg hh]
        have hne : handle ≠ h := by
          rintro rfl
          exact hh (Except.ok.inj (hfound.symm.trans (hname i)))
        have hrest := List.mem_of_ne_of_mem hne hmem
        exact ih hrest (fun h' hh' => hnamed h' (by simp [hh']))
          (fun h' hh' => hunique h' (by simp [hh'])) (i + 1) _

/-- A volume that shares what its name keeps with no other is the one found by that
name, whatever is on the stack in any of the calls. -/
theorem lookups_eq {platform : Platform} {devicePathCompare : DevicePath → DevicePath → Int}
    (order : IsPathOrder devicePathCompare) {handles : List Handle}
    (hcount : handles.length ≤ 2 ^ 31) (hall : ∀ h ∈ handles, ∃ path, Nameable platform h path)
    {handle : Handle} {path : DevicePath} (hmem : handle ∈ handles)
    (hpath : handle.devicePath = some path)
    (halone : ∀ h ∈ handles, ∀ p, h.devicePath = some p →
      kept platform p = kept platform path → h = handle)
    {stack : Stack} {name : List Char16}
    (hname : handle.name platform devicePathCompare stack
      (consistMappingTableInit devicePathCompare handles) = .ok (some name))
    (frames : Nat → Stack) :
    getHandleFromMapName platform devicePathCompare frames
        (consistMappingTableInit devicePathCompare handles) handles (some name) =
          .ok (some handle) ∧
      ∀ root, handle.openVolume = .ok root →
        usfOpenRoot platform devicePathCompare frames
          (consistMappingTableInit devicePathCompare handles) handles name =
            .ok (.success, some root) := by
  have hn := Nameable.of_devicePath (hall handle hmem) hpath
  have hsfs : sfsHandles handles = handles := by
    rw [sfsHandles, List.filter_eq_self]
    intro h hh
    obtain ⟨p, hp⟩ := hall h hh
    exact hp.sfs
  -- the name does not depend on the stack, and no other handle has it
  have hsame : ∀ i, handle.name platform devicePathCompare (frames i)
      (consistMappingTableInit devicePathCompare handles) = .ok (some name) := by
    intro i
    rw [← hname, name_eq_iff order hcount hmem hn hmem hn]
  have hunique : ∀ h ∈ handles, ∀ i, h.name platform devicePathCompare (frames i)
      (consistMappingTableInit devicePathCompare handles) = .ok (some name) → h = handle := by
    intro h hh i heq
    obtain ⟨p, hp⟩ := hall h hh
    rw [← hname, name_eq_iff order hcount hh hp hmem hn] at heq
    exact halone h hh p hp.devicePath heq
  have hnamed : ∀ h ∈ handles, ∀ i, ∃ found, h.name platform devicePathCompare (frames i)
      (consistMappingTableInit devicePathCompare handles) = .ok found := by
    intro h hh i
    obtain ⟨p, hp⟩ := hall h hh
    obtain ⟨index, hlt, -, -, hnamed⟩ := name_eq order hh hp
    exact ⟨_, hnamed (frames i)⟩
  constructor
  · rw [getHandleFromMapName, hsfs]
    exact findMapName_eq hmem hsame hnamed hunique 0
  · intro root hroot
    have hne : handles ≠ [] := List.ne_nil_of_mem hmem
    rw [usfOpenRoot, hsfs, if_neg hne]
    exact openRootLoop_eq hmem hsame hnamed hunique hroot 0 .success

/-- Volumes and their names. For volumes whose paths do not show the stack and whose
USB interfaces are found: every one has a name, two have the same name exactly when
their names keep the same (and then, where the Csd can be read back, the same numbers
and strings), and one that shares it with no other is found by it. -/
theorem volume_names_identify {platform : Platform}
    {devicePathCompare : DevicePath → DevicePath → Int} (order : IsPathOrder devicePathCompare)
    {handles : List Handle} (hcount : handles.length ≤ 2 ^ 31)
    (hall : ∀ h ∈ handles, ∃ path, Nameable platform h path) :
    let table := consistMappingTableInit devicePathCompare handles
    let name := fun (stack : Stack) (h : Handle) => h.name platform devicePathCompare stack table
    (∀ h ∈ handles, ∀ stack, ∃ n, name stack h = .ok (some n)) ∧
    (∀ h ∈ handles, ∀ h' ∈ handles, ∀ path path', h.devicePath = some path →
      h'.devicePath = some path' → ∀ stack stack',
        (name stack h = name stack' h' ↔ kept platform path = kept platform path') ∧
        (Readable platform path → Readable platform path' →
          SameKinds (keptItems platform path) (keptItems platform path') →
          name stack h = name stack' h' → (keptItems platform path).map Item.lower =
            (keptItems platform path').map Item.lower)) ∧
    (∀ h ∈ handles, ∀ path, h.devicePath = some path →
      (∀ h' ∈ handles, ∀ path', h'.devicePath = some path' →
        kept platform path' = kept platform path → h' = h) →
      ∀ stack n, name stack h = .ok (some n) → ∀ frames,
        getHandleFromMapName platform devicePathCompare frames table handles (some n) =
          .ok (some h) ∧
        ∀ root, h.openVolume = .ok root →
          usfOpenRoot platform devicePathCompare frames table handles n =
            .ok (.success, some root)) := by
  intro table name
  refine ⟨?_, ?_, ?_⟩
  · intro h hh stack
    obtain ⟨path, hn⟩ := hall h hh
    obtain ⟨index, hlt, -, -, hname⟩ := name_eq order hh hn
    exact ⟨_, hname stack⟩
  · intro h hh h' hh' path path' hpath hpath' stack stack'
    have hiff := name_eq_iff order hcount hh (Nameable.of_devicePath (hall h hh) hpath) hh'
      (Nameable.of_devicePath (hall h' hh') hpath') stack stack'
    exact ⟨hiff, fun hr hr' hkind heq => items_eq_of_kept hr hr' hkind (hiff.mp heq)⟩
  · intro h hh path hpath halone stack n hn frames
    exact lookups_eq order hcount hall hh hpath halone hn frames

/-! ## Two volumes, and two that share a name -/

/-- A total order of device paths, by a numbering of them. -/
def pathCompare (a b : DevicePath) : Int :=
  let number (path : DevicePath) : Nat :=
    Encodable.encode (path.map fun node =>
      (node.type.toNat, node.subType.toNat, node.data.map UInt8.toNat))
  (number a : Int) - number b

theorem isPathOrder_pathCompare : IsPathOrder pathCompare where
  zero_iff a b := by
    have hinj : Function.Injective (fun node : DevicePathNode =>
        (node.type.toNat, node.subType.toNat, node.data.map UInt8.toNat)) := by
      rintro ⟨t, st, d⟩ ⟨t', st', d'⟩ h
      simp only [Prod.mk.injEq, UInt8.toNat_inj] at h
      obtain ⟨rfl, rfl, hd⟩ := h
      rw [List.map_injective_iff.mpr (fun _ _ => UInt8.toNat_inj.mp) hd]
    constructor
    · intro h
      have heq := Encodable.encode_injective (Int.ofNat_inj.mp (Int.sub_eq_zero.mp h))
      exact List.map_injective_iff.mpr hinj heq
    · rintro rfl
      exact Int.sub_self _
  swap a b := by simp only [pathCompare]; omega
  trans a b c := by simp only [pathCompare]; omega

/-- A partition on a namespace of the NVMe controller at PCI 29.0. -/
def nvmePartition (namespaceId partition : UInt8) : DevicePath :=
  [⟨0x02, 0x01, [0xd0, 0x41, 0x03, 0x0a, 0x00, 0x00, 0x00, 0x00]⟩,
    ⟨0x01, 0x01, [0x00, 0x1d]⟩,
    ⟨0x03, 0x17, namespaceId :: List.replicate 11 0x00⟩,
    ⟨0x04, 0x01, partition :: List.replicate 37 0x00⟩]

/-- A volume on it. -/
def nvmeVolume (id : Nat) (namespaceId partition : UInt8) : Handle where
  id := id
  devicePath := some (nvmePartition namespaceId partition)
  blockIo := true
  simpleFileSystem := true
  openVolume := .ok id

theorem nvmePartition_plain {namespaceId partition : UInt8} (hn : namespaceId ∈ [1, 2])
    (hp : partition ∈ [1, 2]) :
    WellFormed (nvmePartition namespaceId partition) ∧
      ∀ node ∈ nvmePartition namespaceId partition, node.serialiser.readsStack = false ∧
        lookupFails plainPlatform (nvmePartition namespaceId partition) node = false := by
  simp only [List.mem_cons, List.not_mem_nil, or_false] at hn hp
  rcases hn with rfl | rfl <;> rcases hp with rfl | rfl <;> decide +kernel

theorem nameable_nvme (id : Nat) {namespaceId partition : UInt8} (hn : namespaceId ∈ [1, 2])
    (hp : partition ∈ [1, 2]) :
    Nameable plainPlatform (nvmeVolume id namespaceId partition)
      (nvmePartition namespaceId partition) where
  sfs := rfl
  devicePath := rfl
  wellFormed := (nvmePartition_plain hn hp).1
  plain node hnode := ((nvmePartition_plain hn hp).2 node hnode).1
  lookups node hnode := ((nvmePartition_plain hn hp).2 node hnode).2

/-- Partitions 1 and 2 of one namespace have different names. -/
theorem partitions_have_own_names :
    (nvmeVolume 0 1 1).name plainPlatform pathCompare (fun _ => [])
        (consistMappingTableInit pathCompare [nvmeVolume 0 1 1, nvmeVolume 1 1 2]) ≠
      (nvmeVolume 1 1 2).name plainPlatform pathCompare (fun _ => [])
        (consistMappingTableInit pathCompare [nvmeVolume 0 1 1, nvmeVolume 1 1 2]) := by
  have hall : ∀ h ∈ [nvmeVolume 0 1 1, nvmeVolume 1 1 2],
      ∃ path, Nameable plainPlatform h path := by
    simp only [List.forall_mem_cons]
    exact ⟨⟨_, nameable_nvme 0 (by decide) (by decide)⟩,
      ⟨_, nameable_nvme 1 (by decide) (by decide)⟩, by simp⟩
  have hnames := (volume_names_identify isPathOrder_pathCompare (by decide) hall).2.1
    (nvmeVolume 0 1 1) (by simp) (nvmeVolume 1 1 2) (by simp) _ _ rfl rfl (fun _ => [])
    (fun _ => [])
  rw [Ne, hnames.1]
  decide +kernel

/-- Not every set of volumes with pairwise different device paths has pairwise different
names by which each is found: partition 1 of two namespaces. -/
theorem nvme_namespaces_share_name :
    ¬ ∀ (platform : Platform) (devicePathCompare : DevicePath → DevicePath → Int),
      IsPathOrder devicePathCompare → ∀ handles : List Handle,
        handles.Pairwise (fun h h' => h.devicePath ≠ h'.devicePath) →
        (∀ h ∈ handles, h.simpleFileSystem = true ∧
          ∃ path, h.devicePath = some path ∧ WellFormed path) →
        let table := consistMappingTableInit devicePathCompare handles
        ∀ h ∈ handles, ∀ stack, ∃ n, h.name platform devicePathCompare stack table =
            .ok (some n) ∧
          (∀ h' ∈ handles, h'.devicePath ≠ h.devicePath → ∀ stack',
            h'.name platform devicePathCompare stack' table ≠ .ok (some n)) ∧
          ∀ frames, getHandleFromMapName platform devicePathCompare frames table handles
              (some n) = .ok (some h) ∧
            ∀ root, h.openVolume = .ok root →
              usfOpenRoot platform devicePathCompare frames table handles n =
                .ok (.success, some root) := by
  intro hclaim
  have hn : Nameable plainPlatform (nvmeVolume 0 1 1) (nvmePartition 1 1) :=
    nameable_nvme 0 (by decide) (by decide)
  have hn' : Nameable plainPlatform (nvmeVolume 1 2 1) (nvmePartition 2 1) :=
    nameable_nvme 1 (by decide) (by decide)
  have hwf : ∀ h ∈ [nvmeVolume 0 1 1, nvmeVolume 1 2 1], h.simpleFileSystem = true ∧
      ∃ path, h.devicePath = some path ∧ WellFormed path := by
    simp only [List.forall_mem_cons]
    exact ⟨⟨rfl, _, rfl, hn.wellFormed⟩, ⟨rfl, _, rfl, hn'.wellFormed⟩, by simp⟩
  obtain ⟨n, hname, hother, -⟩ := hclaim plainPlatform pathCompare isPathOrder_pathCompare
    [nvmeVolume 0 1 1, nvmeVolume 1 2 1] (by simp; decide) hwf (nvmeVolume 0 1 1) (by simp)
    (fun _ => [])
  -- the two namespaces keep the same items, so they share the name
  refine hother (nvmeVolume 1 2 1) (by simp) (by decide) (fun _ => []) ?_
  rw [← hname, name_eq_iff isPathOrder_pathCompare (by decide) (by simp) hn' (by simp) hn]
  decide +kernel

end EfiLvgl.Mapping
