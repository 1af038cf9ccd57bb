import EfiLvgl.Mapping.DevicePath

/-!
# EfiLvgl.Mapping.Stack — names and the contents of the stack

Six serialisers scan a buffer that `UnicodeSPrint` was told to have no room in, so
that a name holds whatever the stack held before: two calls for one path can return
different names (`stale_buffer_changes_name`). `name_stable_iff` says when they
cannot: the name is `NULL`, or no such node is reached before the nodes in front of
it have filled the 2047 characters that `CatPrint` takes over into the name.
-/

namespace EfiLvgl.Mapping

open EfiLvgl.CString

/-! ## Well-formed paths -/

/-- The bytes behind the header that the serialiser reads. -/
def Serialiser.minSize : Serialiser → Nat
  | .default => 0
  | .acpi => 8
  | .atapi => 4
  | .scsi => 4
  | .fibre => 20
  | .f1394 => 12
  | .usb => 2
  | .i2o => 4
  | .macAddr => 33
  | .ipv4 => 12
  | .ipv6 => 36
  | .infiniBand => 44
  | .uart => 15
  | .vendor => 16
  | .lun => 1
  | .sata => 6
  | .iScsi => 14
  | .hardDrive => 38
  | .cdRom => 20

/-- A node whose length covers the fields that are read, and fits the header. -/
def DevicePathNode.Wf (node : DevicePathNode) : Prop :=
  ¬ (node.type = 0x7f ∧ node.subType = 0xff) ∧ node.length < 2 ^ 16 ∧
    node.serialiser.minSize ≤ node.data.length ∧
    (node.type = 0x02 → 4 ≤ node.data.length) ∧
    (node.serialiser = .vendor → node.bytes 0 16 = efiSasDevicePathGuid → 40 ≤ node.data.length)

instance (node : DevicePathNode) : Decidable node.Wf := inferInstanceAs (Decidable (_ ∧ _))

/-- A well-formed device path. -/
def WellFormed (path : DevicePath) : Prop := ∀ node ∈ path, node.Wf

instance (path : DevicePath) : Decidable (WellFormed path) :=
  inferInstanceAs (Decidable (∀ node ∈ path, node.Wf))

/-! ## Which nodes show the stack -/

/-- The serialiser scans a buffer that nothing was written to. -/
def Serialiser.readsStack : Serialiser → Bool
  | .f1394 | .macAddr | .ipv4 | .ipv6 | .infiniBand | .vendor => true
  | _ => false

theorem Serialiser.items_of_not_readsStack {s : Serialiser} (h : s.readsStack = false)
    (platform : Platform) (buffer buffer' : List Char16) (node : DevicePathNode) :
    s.items platform buffer node = s.items platform buffer' node := by
  cases s <;> first | rfl | cases h

/-- The first thing it appends is what it finds there. -/
theorem Serialiser.items_of_readsStack {s : Serialiser} (h : s.readsStack = true)
    (platform : Platform) (buffer : List Char16) (node : DevicePathNode) :
    ∃ rest, s.items platform buffer node = .str (cstr buffer) :: rest := by
  cases s <;> first | exact ⟨_, rfl⟩ | cases h

theorem pathItems_append (platform : Platform) (stack : Stack) (nodes nodes' : List DevicePathNode)
    (i : Nat) :
    pathItems platform stack i (nodes ++ nodes') =
      pathItems platform stack i nodes ++ pathItems platform stack (i + nodes.length) nodes' := by
  induction nodes generalizing i with
  | nil => simp [pathItems]
  | cons node nodes ih =>
      rw [List.cons_append, pathItems, ih, pathItems, List.append_assoc, List.length_cons,
        Nat.add_assoc, Nat.add_comm 1]

theorem pathItems_of_not_readsStack {nodes : List DevicePathNode}
    (h : ∀ node ∈ nodes, node.serialiser.readsStack = false) (platform : Platform)
    (stack stack' : Stack) (i : Nat) :
    pathItems platform stack i nodes = pathItems platform stack' i nodes := by
  induction nodes generalizing i with
  | nil => rfl
  | cons node nodes ih =>
      rw [pathItems, pathItems, ih (fun n hn => h n (by simp [hn])) (i + 1),
        Serialiser.items_of_not_readsStack (h node (by simp)) platform (stack i) (stack' i)]

/-- The blocks of a longer sequence: the rest goes on in one of the two codes. -/
theorem blocks_append (items : List Item) (digital : Bool) :
    ∃ digital', ∀ items', blocks digital (items ++ items') =
      blocks digital items ++ blocks digital' items' := by
  induction items generalizing digital with
  | nil => exact ⟨digital, fun _ => rfl⟩
  | cons item items ih =>
      obtain ⟨digital', h⟩ := ih (!digital)
      refine ⟨digital', fun items' => ?_⟩
      rw [List.cons_append, blocks, h, blocks, List.cons_append]

/-! ## When the stack does not show -/

/-- A name is made: the hardware path is in the table and every USB interface that is
asked for is found. -/
def NameMade (platform : Platform) (devicePathCompare : DevicePath → DevicePath → Int)
    (path : DevicePath) (table : List DevicePath) : Prop :=
  (∃ entry ∈ table, devicePathCompare entry (getHIDevicePath path) = 0) ∧
    ∀ node ∈ path, lookupFails platform path node = false

/-- In front of the first node that shows the stack, the nodes already render as many
characters as go into a name. -/
def Settled (platform : Platform) (path : DevicePath) : Prop :=
  ∀ pre node post, path = pre ++ node :: post →
    (∀ n ∈ pre, n.serialiser.readsStack = false) → node.serialiser.readsStack = true →
    2047 ≤ (csdText platform (fun _ => []) pre).length

/-- The Csd up to a node: the text of the nodes before it and what it adds. -/
theorem csdText_split {pre : List DevicePathNode}
    (hpre : ∀ n ∈ pre, n.serialiser.readsStack = false) (platform : Platform)
    (nodes : List DevicePathNode) :
    ∃ digital, ∀ stack, csdText platform stack (pre ++ nodes) =
      csdText platform (fun _ => []) pre ++
        (blocks digital (pathItems platform stack pre.length nodes)).flatten := by
  obtain ⟨digital, h⟩ := blocks_append (pathItems platform (fun _ => []) 0 pre) false
  refine ⟨digital, fun stack => ?_⟩
  rw [csdText, pathItems_append, Nat.zero_add,
    pathItems_of_not_readsStack hpre platform stack (fun _ => []), h, List.flatten_append]
  rfl

/-- What is in the buffer of a node that shows the stack stands right after the text
before it. -/
theorem getElem?_csdText {pre : List DevicePathNode}
    (hpre : ∀ n ∈ pre, n.serialiser.readsStack = false) {node : DevicePathNode}
    (hnode : node.serialiser.readsStack = true) (platform : Platform)
    (post : List DevicePathNode) :
    ∃ digital : Bool, ∀ c, c ≠ 0 → ∀ d t, (if digital then digitalCode else letterCode) c = d :: t →
      (csdText platform (fun _ => [c]) (pre ++ node :: post))[
        (csdText platform (fun _ => []) pre).length]? = some d := by
  obtain ⟨digital, h⟩ := csdText_split hpre platform (node :: post)
  refine ⟨digital, fun c hc d t hcode => ?_⟩
  obtain ⟨rest, hitems⟩ := Serialiser.items_of_readsStack hnode platform [c] node
  have hcstr : cstr [c] = [c] := cstr_cons hc []
  rw [h, pathItems, hitems, List.cons_append, blocks, List.flatten_cons, Item.text, hcstr,
    List.flatMap_cons, hcode, List.getElem?_append_right (Nat.le_refl _), Nat.sub_self]
  rfl

theorem name_of_not_nameMade {platform : Platform}
    {devicePathCompare : DevicePath → DevicePath → Int} {path : DevicePath}
    {table : List DevicePath} (h : ¬ NameMade platform devicePathCompare path table)
    (stack : Stack) :
    getConsistMappingName platform devicePathCompare stack path table = none := by
  rw [getConsistMappingName_eq]
  cases hidx : table.findIdx? fun entry =>
      decide (devicePathCompare entry (getHIDevicePath path) = 0) with
  | none => rfl
  | some index =>
      have hentry : ∃ entry ∈ table, devicePathCompare entry (getHIDevicePath path) = 0 := by
        obtain ⟨hlt, hp, -⟩ := List.findIdx?_eq_some_iff_getElem.mp hidx
        exact ⟨table[index], List.getElem_mem hlt, by simpa using hp⟩
      have hfails : path.any (lookupFails platform path) = true := by
        rw [List.any_eq_true]
        by_contra hall
        push Not at hall
        exact h ⟨hentry, fun node hn => by simpa using hall node hn⟩
      simp only [hfails, if_true]

theorem name_of_nameMade {platform : Platform}
    {devicePathCompare : DevicePath → DevicePath → Int} {path : DevicePath}
    {table : List DevicePath} (h : NameMade platform devicePathCompare path table) :
    ∃ start, ∀ stack, getConsistMappingName platform devicePathCompare stack path table =
      some (start ++ ((csdText platform stack path).take 2047 ++ text [':'])) := by
  obtain ⟨⟨entry, hmem, hentry⟩, hlookup⟩ := h
  have hnone : path.any (lookupFails platform path) = false := by
    rw [List.any_eq_false]
    intro node hn
    simp [hlookup node hn]
  cases hidx : table.findIdx? fun entry =>
      decide (devicePathCompare entry (getHIDevicePath path) = 0) with
  | none =>
      have hne := List.findIdx?_eq_none_iff.mp hidx entry hmem
      simp [hentry] at hne
  | some index =>
      refine ⟨mtdText (pathMtd platform path path .unknown) ++ printD index, fun stack => ?_⟩
      rw [getConsistMappingName_eq, hidx]
      simp only [hnone, Bool.false_eq_true, if_false, List.append_assoc]

/-- The characters `0` and `2` have different codes, in letters and in digits. -/
theorem code_zero_two (digital : Bool) :
    ∃ d e, (if digital then digitalCode else letterCode) (ch '0') = [d] ∧
      (if digital then digitalCode else letterCode) (ch '2') = [e] ∧ d ≠ e := by
  cases digital with
  | false => exact ⟨ch 'a', ch 'c', by decide, by decide, by decide⟩
  | true => exact ⟨ch '0', ch '2', by decide, by decide, by decide⟩

theorem settled_of_stable {platform : Platform} {path : DevicePath}
    (h : ∀ stack stack', (csdText platform stack path).take 2047 =
      (csdText platform stack' path).take 2047) : Settled platform path := by
  intro pre node post hpath hpre hnode
  subst hpath
  by_contra hlt
  obtain ⟨digital, hget⟩ := getElem?_csdText hpre hnode platform post
  obtain ⟨d, e, hd, he, hne⟩ := code_zero_two digital
  have hzero := hget (ch '0') (by decide) d [] hd
  have htwo := hget (ch '2') (by decide) e [] he
  -- the two names differ in the first character that comes from the stack
  have heq := congrArg (fun t => t[(csdText platform (fun _ => []) pre).length]?)
    (h (fun _ => [ch '0']) (fun _ => [ch '2']))
  simp only [List.getElem?_take, if_pos (Nat.lt_of_not_le hlt), hzero, htwo,
    Option.some.injEq] at heq
  exact hne heq

theorem stable_of_settled {platform : Platform} {path : DevicePath} (h : Settled platform path)
    (stack stack' : Stack) :
    (csdText platform stack path).take 2047 = (csdText platform stack' path).take 2047 := by
  have hsplit : path.takeWhile (fun node => !node.serialiser.readsStack) ++
      path.dropWhile (fun node => !node.serialiser.readsStack) = path :=
    List.takeWhile_append_dropWhile
  have hpre : ∀ n ∈ path.takeWhile (fun node => !node.serialiser.readsStack),
      n.serialiser.readsStack = false := by
    intro n hn
    simpa using List.mem_takeWhile_imp hn
  cases hpost : path.dropWhile (fun node => !node.serialiser.readsStack) with
  | nil =>
      -- no node of the path reads the stack
      rw [hpost, List.append_nil] at hsplit
      rw [hsplit] at hpre
      rw [csdText, csdText, pathItems_of_not_readsStack hpre platform stack stack']
  | cons node post =>
      have hnode : node.serialiser.readsStack = true := by
        have hhead := List.head_dropWhile_not (l := path) (fun node : DevicePathNode =>
          !node.serialiser.readsStack) (by simp [hpost])
        simpa [hpost] using hhead
      rw [hpost] at hsplit
      -- what stands in front of the first node that reads the stack fills the buffer
      have hfull := h _ node post hsplit.symm hpre hnode
      obtain ⟨digital, htext⟩ := csdText_split hpre platform (node :: post)
      rw [← hsplit, htext, htext, List.take_append_of_le_length hfull,
        List.take_append_of_le_length hfull]

/-- Any two calls for a path return the same name exactly when, if a name is made at
all, the stack does not show in it. -/
theorem name_stable_iff (platform : Platform)
    (devicePathCompare : DevicePath → DevicePath → Int) (path : DevicePath)
    (table : List DevicePath) :
    (∀ stack stack', getConsistMappingName platform devicePathCompare stack path table =
        getConsistMappingName platform devicePathCompare stack' path table) ↔
      (NameMade platform devicePathCompare path table → Settled platform path) := by
  constructor
  · intro h hmade
    obtain ⟨start, hname⟩ := name_of_nameMade hmade
    apply settled_of_stable
    intro stack stack'
    have heq := h stack stack'
    rw [hname, hname, Option.some.injEq, List.append_cancel_left_eq,
      List.append_cancel_right_eq] at heq
    exact heq
  · intro h stack stack'
    by_cases hmade : NameMade platform devicePathCompare path table
    · obtain ⟨start, hname⟩ := name_of_nameMade hmade
      rw [hname, hname, stable_of_settled (h hmade) stack stack']
    · rw [name_of_not_nameMade hmade, name_of_not_nameMade hmade]

/-! ## A path whose name shows the stack -/

/-- PCI device 31.2, a vendor-defined messaging node, partition 1. -/
def vendorPath : DevicePath :=
  [⟨0x01, 0x01, [0x02, 0x1f]⟩, ⟨0x03, 0x0a, List.replicate 16 0x11⟩,
    ⟨0x04, 0x01, 0x01 :: List.replicate 37 0x00⟩]

/-- A platform with the three PCDs at their defaults. -/
def plainPlatform : Platform := ⟨true, 0, false, fun _ => some (0x08, 0x06)⟩

/-- Not every well-formed path has one name in one table, whatever the stack held. -/
theorem stale_buffer_changes_name :
    ¬ ∀ (platform : Platform) (devicePathCompare : DevicePath → DevicePath → Int)
      (path : DevicePath) (table : List DevicePath), WellFormed path → ∀ stack stack',
        getConsistMappingName platform devicePathCompare stack path table =
          getConsistMappingName platform devicePathCompare stack' path table := by
  intro h
  have hnames := h plainPlatform (fun a b => if a = b then 0 else 1) vendorPath
    [getHIDevicePath vendorPath] (by decide) (fun _ => [ch '0', 0]) (fun _ => [ch '2', 0])
  revert hnames
  decide +kernel

end EfiLvgl.Mapping
