import EfiLvgl.Mapping.Lookup

/-!
# EfiLvgl.Mapping.Order — the table does not depend on the enumeration

The firmware may list its handles in any order. `ConsistMappingTableInit` collects the
hardware paths in that order and sorts them at the end, so what matters is only which
paths there are:

* `nodup_rounds`: the linear scan lets no path in twice;
* `sort_rounds_eq`: any sorting of what was collected gives the same table, whatever
  the order of the handles was;
* `mapping_table_order_free`: the table, and with it the index that a name shows, is
  the same for every enumeration of the same handles.
-/

namespace EfiLvgl.Mapping

/-- The handle carries block I/O or the simple file system protocol. -/
def Handle.named (handle : Handle) : Bool := handle.blockIo || handle.simpleFileSystem

/-- `PerformQuickSort` as its callers rely on it: it reorders by the comparison. -/
structure Sorts (devicePathCompare : DevicePath → DevicePath → Int)
    (performQuickSort : List DevicePath → List DevicePath) : Prop where
  perm : ∀ table, (performQuickSort table).Perm table
  ordered : ∀ table, (performQuickSort table).Pairwise fun a b => devicePathCompare a b ≤ 0

section Order

variable {devicePathCompare : DevicePath → DevicePath → Int}

theorem IsPathOrder.total (order : IsPathOrder devicePathCompare) (a b : DevicePath) :
    devicePathCompare a b ≤ 0 ∨ devicePathCompare b a ≤ 0 := by
  have hswap := order.swap b a
  by_cases hle : devicePathCompare a b ≤ 0
  · exact Or.inl hle
  · right
    have hlt : devicePathCompare b a < 0 := hswap.mpr (by omega)
    omega

theorem IsPathOrder.antisymm (order : IsPathOrder devicePathCompare) {a b : DevicePath}
    (hab : devicePathCompare a b ≤ 0) (hba : devicePathCompare b a ≤ 0) : a = b := by
  have hswap := order.swap a b
  apply (order.zero_iff a b).mp
  by_contra hne
  have hpos : 0 < devicePathCompare b a := hswap.mp (by omega)
  omega

/-- The sort of the model is one. -/
theorem sorts_mergeSort (order : IsPathOrder devicePathCompare) :
    Sorts devicePathCompare fun table => table.mergeSort fun a b => devicePathCompare a b ≤ 0 where
  perm table := List.mergeSort_perm table _
  ordered table := by
    have hsorted : (table.mergeSort fun a b => devicePathCompare a b ≤ 0).Pairwise
        fun a b => decide (devicePathCompare a b ≤ 0) = true := List.pairwise_mergeSort
      (fun a b c hab hbc => by
        simp only [decide_eq_true_eq] at hab hbc ⊢
        exact order.trans a b c hab hbc)
      (fun a b => by
        simpa only [Bool.or_eq_true, decide_eq_true_eq] using order.total a b) table
    apply hsorted.imp
    intro a b hab
    simpa using hab

/-! ## What is collected -/

theorem nodup_addHandle (order : IsPathOrder devicePathCompare) {table : List DevicePath}
    (hnd : table.Nodup) (handle : Handle) : (addHandle devicePathCompare table handle).Nodup := by
  rw [addHandle]
  split
  · exact hnd
  · next path _ =>
      split
      · split
        · exact hnd
        · next hany =>
            rw [List.nodup_append]
            refine ⟨hnd, List.nodup_singleton _, ?_⟩
            intro a ha b hb hab
            -- the scan has compared the new path with every entry
            apply hany
            rw [List.mem_singleton] at hb
            rw [List.any_eq_true]
            refine ⟨a, ha, ?_⟩
            rw [decide_eq_true_eq]
            exact (order.zero_iff _ _).mpr (hab.trans hb)
      · exact hnd

theorem nodup_rounds (order : IsPathOrder devicePathCompare) (handles : List Handle)
    {table : List DevicePath} (hnd : table.Nodup) :
    (handles.foldl (addHandle devicePathCompare) table).Nodup := by
  induction handles generalizing table with
  | nil => exact hnd
  | cons handle handles ih =>
      rw [List.foldl_cons]
      exact ih (nodup_addHandle order hnd handle)

/-- The same handles in another order: the same paths in another order. -/
theorem perm_rounds (order : IsPathOrder devicePathCompare) {handles handles' : List Handle}
    (hperm : handles.Perm handles') :
    (handles.foldl (addHandle devicePathCompare) []).Perm
      (handles'.foldl (addHandle devicePathCompare) []) := by
  rw [List.perm_ext_iff_of_nodup (nodup_rounds order handles List.nodup_nil)
    (nodup_rounds order handles' List.nodup_nil)]
  intro entry
  rw [mem_foldl_addHandle order, mem_foldl_addHandle order]
  simp only [hperm.mem_iff]

/-- Sorting leaves no choice. -/
theorem sort_rounds_eq (order : IsPathOrder devicePathCompare) {handles handles' : List Handle}
    (hperm : handles.Perm handles') {performQuickSort : List DevicePath → List DevicePath}
    (hsort : Sorts devicePathCompare performQuickSort) :
    performQuickSort (handles'.foldl (addHandle devicePathCompare) []) =
      consistMappingTableInit devicePathCompare handles := by
  have hmodel := sorts_mergeSort order
  have hcollected := (hsort.perm (handles'.foldl (addHandle devicePathCompare) [])).trans
    (perm_rounds order hperm).symm
  apply List.Perm.eq_of_pairwise (fun a b _ _ hab hba => order.antisymm hab hba)
    (hsort.ordered _) (hmodel.ordered _)
  exact hcollected.trans (hmodel.perm _).symm

/-- Sorted, and no path twice. -/
theorem table_strict (order : IsPathOrder devicePathCompare) (handles : List Handle) :
    (consistMappingTableInit devicePathCompare handles).Pairwise
      fun a b => devicePathCompare a b < 0 := by
  have hmodel := sorts_mergeSort order
  have hnd : (consistMappingTableInit devicePathCompare handles).Nodup :=
    (hmodel.perm _).nodup_iff.mpr (nodup_rounds order handles List.nodup_nil)
  have hle := hmodel.ordered (handles.foldl (addHandle devicePathCompare) [])
  apply (hle.and hnd).imp
  rintro a b ⟨hab, hne⟩
  have hzero : devicePathCompare a b ≠ 0 := fun h => hne ((order.zero_iff a b).mp h)
  omega

theorem mem_table_iff (order : IsPathOrder devicePathCompare) (handles : List Handle)
    (entry : DevicePath) :
    entry ∈ consistMappingTableInit devicePathCompare handles ↔
      ∃ handle ∈ handles, handle.named = true ∧
        ∃ path, handle.devicePath = some path ∧ entry = getHIDevicePath path := by
  rw [consistMappingTableInit, List.mem_mergeSort, mem_foldl_addHandle order]
  simp [Handle.named]

end Order

/-! ## The index in the name -/

/-- The name that `GetConsistMappingName` makes with `Hi` set to an index. -/
def nameAt (platform : Platform) (stack : Stack) (path : DevicePath) (hi : Nat) :
    Option (List Char16) :=
  (getDeviceConsistMappingInfo platform stack path (startInfo hi .unknown)).map printName

/-- `GetConsistMappingName` finds a path of the table. -/
theorem name_of_mem_table {devicePathCompare : DevicePath → DevicePath → Int}
    (order : IsPathOrder devicePathCompare) {table : List DevicePath} {path : DevicePath}
    (hmem : getHIDevicePath path ∈ table) :
    ∃ index, table[index]? = some (getHIDevicePath path) ∧ ∀ platform stack,
      getConsistMappingName platform devicePathCompare stack path table =
        nameAt platform stack path index := by
  cases hidx : table.findIdx? fun entry =>
      decide (devicePathCompare entry (getHIDevicePath path) = 0) with
  | none =>
      have hne := List.findIdx?_eq_none_iff.mp hidx _ hmem
      simp [(order.zero_iff _ _).mpr rfl] at hne
  | some index =>
      obtain ⟨hlt, hp, -⟩ := List.findIdx?_eq_some_iff_getElem.mp hidx
      have hentry : table[index] = getHIDevicePath path :=
        (order.zero_iff _ _).mp (by simpa using hp)
      refine ⟨index, ?_, ?_⟩
      · rw [List.getElem?_eq_getElem hlt, hentry]
      · intro platform stack
        rw [getConsistMappingName, hidx]
        rfl

/-- Whatever the order in which the firmware lists the handles and whatever the sort:
one table, the strictly sorted list of the hardware paths of the block devices and
volumes, in which the path of each of them is found at one index, which its name shows. -/
theorem mapping_table_order_free {devicePathCompare : DevicePath → DevicePath → Int}
    (order : IsPathOrder devicePathCompare) {handles handles' : List Handle}
    (hperm : handles.Perm handles') {performQuickSort : List DevicePath → List DevicePath}
    (hsort : Sorts devicePathCompare performQuickSort) :
    let table := performQuickSort (handles.foldl (addHandle devicePathCompare) [])
    let table' := performQuickSort (handles'.foldl (addHandle devicePathCompare) [])
    table' = table ∧ table = consistMappingTableInit devicePathCompare handles ∧
    table.Pairwise (fun a b => devicePathCompare a b < 0) ∧
    (∀ entry, entry ∈ table ↔ ∃ handle ∈ handles, handle.named = true ∧
      ∃ path, handle.devicePath = some path ∧ entry = getHIDevicePath path) ∧
    ∀ handle ∈ handles, handle.named = true → ∀ path, handle.devicePath = some path →
      ∃ index, table[index]? = some (getHIDevicePath path) ∧ ∀ platform stack,
        getConsistMappingName platform devicePathCompare stack path table =
            nameAt platform stack path index ∧
          getConsistMappingName platform devicePathCompare stack path table' =
            nameAt platform stack path index := by
  intro table table'
  -- every sort of the same set of paths gives the one strictly ordered list
  have htable : table = consistMappingTableInit devicePathCompare handles :=
    sort_rounds_eq order (List.Perm.refl handles) hsort
  have htable' : table' = table := (sort_rounds_eq order hperm hsort).trans htable.symm
  have hmem : ∀ entry, entry ∈ table ↔ ∃ handle ∈ handles, handle.named = true ∧
      ∃ path, handle.devicePath = some path ∧ entry = getHIDevicePath path := by
    intro entry
    rw [htable]
    exact mem_table_iff order handles entry
  refine ⟨htable', htable, ?_, hmem, ?_⟩
  · rw [htable]
    exact table_strict order handles
  · intro handle hhandle hnamed path hpath
    obtain ⟨index, hentry, hname⟩ :=
      name_of_mem_table order ((hmem _).mpr ⟨handle, hhandle, hnamed, path, hpath, rfl⟩)
    refine ⟨index, hentry, ?_⟩
    intro platform stack
    rw [htable']
    exact ⟨hname platform stack, hname platform stack⟩

/-- A block device on another controller, at PCI 31.2. -/
def sataDisk : Handle where
  id := 2
  devicePath := some [⟨0x02, 0x01, [0xd0, 0x41, 0x03, 0x0a, 0x00, 0x00, 0x00, 0x00]⟩,
    ⟨0x01, 0x01, [0x02, 0x1f]⟩]
  blockIo := true
  simpleFileSystem := false
  openVolume := .error .notFound

/-- Three handles, listed backwards: one table, one index for each. -/
theorem reversed_handles_same_table :
    consistMappingTableInit pathCompare [sataDisk, nvmeVolume 1 2 1, nvmeVolume 0 1 1] =
      consistMappingTableInit pathCompare [nvmeVolume 0 1 1, nvmeVolume 1 2 1, sataDisk] ∧
    ∃ index, ∀ platform stack,
      getConsistMappingName platform pathCompare stack (nvmePartition 1 1)
          (consistMappingTableInit pathCompare [sataDisk, nvmeVolume 1 2 1, nvmeVolume 0 1 1]) =
        nameAt platform stack (nvmePartition 1 1) index := by
  have hperm : [nvmeVolume 0 1 1, nvmeVolume 1 2 1, sataDisk].Perm
      [sataDisk, nvmeVolume 1 2 1, nvmeVolume 0 1 1] :=
    (List.reverse_perm [nvmeVolume 0 1 1, nvmeVolume 1 2 1, sataDisk]).symm
  obtain ⟨htable, -, -, -, hname⟩ := mapping_table_order_free isPathOrder_pathCompare hperm
    (sorts_mergeSort isPathOrder_pathCompare)
  constructor
  · exact htable
  · obtain ⟨index, -, hindex⟩ := hname (nvmeVolume 0 1 1) (by simp) rfl _ rfl
    refine ⟨index, ?_⟩
    intro platform stack
    exact (hindex platform stack).2

end EfiLvgl.Mapping
