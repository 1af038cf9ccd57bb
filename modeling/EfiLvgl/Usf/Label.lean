import EfiLvgl.Usf.Open

/-!
# EfiLvgl.Usf.Label — two ways to a labelled volume

A path `\\LABEL:L\F` can be opened as it is, by `UsfOpenRootByLabel`, or be converted
first, by `GetDevicePathByLabel`, and then opened by its mapping name. The two searches
read labels into buffers of different sizes, and only the second closes the roots that
it passes over.

`label_paths_agree_iff`: both ways reach the same file, and no root stays open, exactly
if no volume opens or the first that does is the one, and the search by name finds it.
-/

namespace EfiLvgl.Usf

open EfiLvgl.Search EfiLvgl.Join EfiLvgl.Mapping

/-! ## The two ways -/

/-- `\\LABEL:L\F`. -/
def labelPath (label file : Text) : Text := rootTypeLabel ++ (label ++ pathSepChar :: file)

/-- What is reached, if anything is; two handles of one file are told apart by nothing
but their numbers. -/
def reached {β : Type} (fileOf : Ptr → β) :
    Except Stop (EfiStatus × Option Ptr × List FileEvent) → Except Stop (Option β)
  | .error stop => .error stop
  | .ok (status, fh, _) => .ok (if status = .success then fh.map fileOf else none)

/-- `UsfOpen` of the path that `UsfFilePathNorm` converts to; in the second call the stack
holds other things. -/
def openConverted (fw : Firmware) (frames' : Nat → Stack) (files : Files) (s : UsfPrivateData)
    (this : Ptr) (filePath : Text) (mode attributes : UInt64) :
    Except Stop (EfiStatus × Option Ptr × List FileEvent) :=
  match usfFilePathNorm fw s filePath true with
  | .error stop => .error stop
  | .ok (.error status) => .ok (status, none, [])
  | .ok (.ok fileNormPath) =>
      usfOpen { fw with frames := frames' } files s (some this) (some fileNormPath) mode attributes

def fileReached {β : Type} (fileOf : Ptr → β) : Except EfiStatus Ptr → Option β
  | .ok file => some (fileOf file)
  | .error _ => none

/-- On a root, a leading separator means the root. -/
def Rooted {β : Type} (fw : Firmware) (fileOf : Ptr → β) (files : Files) : Prop :=
  ∀ v ∈ fw.handles, ∀ root, v.openVolume = .ok root → ∀ name mode attributes,
    fileReached fileOf (files.openFile root (pathSepChar :: name) mode attributes) =
      fileReached fileOf (files.openFile root name mode attributes)

/-- The first volume that opens, `v`, carries the label, of at most 31 characters. -/
structure FirstVolume (fw : Firmware) (label : Text) (pre : List Handle) (v : Handle)
    (post : List Handle) (root : Ptr) : Prop where
  order : sfsHandles fw.handles = pre ++ v :: post
  before : ∀ u ∈ pre, ∀ r, u.openVolume ≠ .ok r
  opens : v.openVolume = .ok root
  labelled : fw.volumeLabel v = .ok label
  short : label.length ≤ 31

/-- The volume has one name in both calls, and the search by name gets as far as to it: what is in
front of it has a device path. -/
structure NamedTwice (fw : Firmware) (frames' : Nat → Stack) (s : UsfPrivateData)
    (pre : List Handle) (v : Handle) (mapping : Text) : Prop where
  named : v.name fw.platform fw.devicePathCompare fw.stack s.fileSystemTable = .ok (some mapping)
  named' : v.name fw.platform fw.devicePathCompare (frames' pre.length) s.fileSystemTable =
    .ok (some mapping)
  paths : ∀ u ∈ pre, u.devicePath ≠ none

/-- The path shows `\\:`, by which a mapping name is announced; only `F` can bring it in. -/
def Internal (label file : Text) : Prop :=
  rootTypeInternal <:+: labelPath label (unifySeparators file)

instance (label file : Text) : Decidable (Internal label file) :=
  inferInstanceAs (Decidable (rootTypeInternal <:+: labelPath label (unifySeparators file)))

theorem getVolumeLabel_eq_ok {fw : Firmware} {v : Handle} {n : Nat} {label : Text} :
    fw.getVolumeLabel v n = .ok label ↔
      fw.volumeLabel v = .ok label ∧ 2 * (label.length + 1) ≤ n := by
  rw [Firmware.getVolumeLabel]
  cases hlabel : fw.volumeLabel v with
  | error e => simp
  | ok l =>
      by_cases hn : 2 * (l.length + 1) ≤ n
      · simp only [hn, if_true, Except.ok.injEq]
        constructor
        · rintro rfl
          exact ⟨rfl, hn⟩
        · exact fun h => h.1
      · simp only [hn, if_false, Except.ok.injEq, reduceCtorEq, false_iff, not_and]
        rintro rfl
        exact hn

section Search

variable {fw : Firmware} {label : Text} {n : Nat}

theorem findLabel_first {pre post : List Handle} {v : Handle} {root : Ptr}
    (hpre : ∀ u ∈ pre, ∀ r, u.openVolume ≠ .ok r) (hopen : v.openVolume = .ok root)
    (hlabel : fw.getVolumeLabel v n = .ok label) :
    findLabel fw label n (pre ++ v :: post) = some (v, root) := by
  induction pre with
  | nil => simp [findLabel, hopen, hlabel]
  | cons u pre ih =>
      rw [List.cons_append, findLabel]
      cases hu : u.openVolume with
      | ok r => exact absurd hu (hpre u (by simp) r)
      | error e => exact ih (fun w hw => hpre w (by simp [hw]))

variable {platform : Platform} {devicePathCompare : DevicePath → DevicePath → Int}
  {frames : Nat → Stack} {table : List DevicePath} {rootName : Text} {pre : List Handle}

/-- By mapping name, too, what does not open is passed over, and what has another name. -/
theorem openRootLoop_append (hpre : ∀ u ∈ pre, (∀ r, u.openVolume ≠ .ok r) ∨
      ∀ i, u.name platform devicePathCompare (frames i) table ≠ .ok (some rootName))
    (hpaths : ∀ u ∈ pre, u.devicePath ≠ none) (rest : List Handle) :
    ∀ (i : Nat) (status : EfiStatus), ∃ status',
      openRootLoop (fun i => Handle.name platform devicePathCompare (frames i) table) rootName i
          (pre ++ rest) status =
        openRootLoop (fun i => Handle.name platform devicePathCompare (frames i) table) rootName
          (i + pre.length) rest status' := by
  induction pre with
  | nil => exact fun i status => ⟨status, rfl⟩
  | cons u pre ih =>
      intro i status
      have hrest := ih (fun w hw => hpre w (by simp [hw])) (fun w hw => hpaths w (by simp [hw]))
        (i + 1)
      obtain ⟨path, hpath⟩ := Option.ne_none_iff_exists'.mp (hpaths u (by simp))
      have hname := name_some hpath platform devicePathCompare (frames i) table
      rw [List.cons_append, List.length_cons, Nat.add_comm pre.length 1, ← Nat.add_assoc,
        openRootLoop]
      simp only [hname]
      split
      · next hfound =>
          rcases hpre u (by simp) with hclosed | hother
          · cases hu : u.openVolume with
            | ok r => exact absurd hu (hclosed r)
            | error e => exact hrest e
          · exact absurd (hname.trans (congrArg _ hfound)) (hother i)
      · exact hrest .volumeCorrupted

/-- Where the search comes to a handle without a device path, it does not go on. -/
theorem openRootLoop_pathless (hpre : ∀ u ∈ pre, (∀ r, u.openVolume ≠ .ok r) ∨
      ∀ i, u.name platform devicePathCompare (frames i) table ≠ .ok (some rootName))
    (hpathless : ∃ u ∈ pre, u.devicePath = none) (rest : List Handle) :
    ∀ (i : Nat) (status : EfiStatus),
      openRootLoop (fun i => Handle.name platform devicePathCompare (frames i) table) rootName i
        (pre ++ rest) status = .error .assertion := by
  induction pre with
  | nil =>
      obtain ⟨u, hu, -⟩ := hpathless
      cases hu
  | cons u pre ih =>
      intro i status
      rw [List.cons_append, openRootLoop]
      cases hpath : u.devicePath with
      | none => simp only [name_none hpath]
      | some path =>
          have hname := name_some hpath platform devicePathCompare (frames i) table
          have hlater : ∃ w ∈ pre, w.devicePath = none := by
            obtain ⟨w, hw, hnone⟩ := hpathless
            rcases List.mem_cons.mp hw with rfl | hw
            · rw [hpath] at hnone
              cases hnone
            · exact ⟨w, hw, hnone⟩
          have hrest := ih (fun w hw => hpre w (by simp [hw])) hlater (i + 1)
          simp only [hname]
          split
          · -- a handle with that name that opens would end the loop, but there is none in front
            next hfound =>
              rcases hpre u (by simp) with hclosed | hother
              · cases hu : u.openVolume with
                | ok r => exact absurd hu (hclosed r)
                | error e => exact hrest e
              · exact absurd (hname.trans (congrArg _ hfound)) (hother i)
          · exact hrest .volumeCorrupted

end Search

/-! ## What a path reaches -/

theorem labelPath_unify {label : Text} (hslash : ch '/' ∉ label) (file : Text) :
    unifySeparators (labelPath label file) = labelPath label (unifySeparators file) := by
  have hcons : unifySeparators (pathSepChar :: file) = pathSepChar :: unifySeparators file := rfl
  have hroot : unifySeparators rootTypeLabel = rootTypeLabel := by decide
  rw [labelPath, unifySeparators_append, unifySeparators_append, hcons, hroot,
    unifySeparators_of_notMem hslash, labelPath]

section Reached

variable {β : Type} (fileOf : Ptr → β) (fw : Firmware) (files : Files) (s : UsfPrivateData)
  (mode attributes : UInt64)

/-- A root without a file name behind it is reached itself. -/
def rootReached : Option Ptr → Option Text → Option β
  | none, _ => none
  | some root, none => some (fileOf root)
  | some root, some name => fileReached fileOf (files.openFile root name mode attributes)

theorem reached_behind {stray : List Ptr} {status : EfiStatus} {root : Option Ptr}
    {evs : List FileEvent} (h : RootOpened stray status root evs) (fileName : Option Text) :
    reached fileOf (.ok (openBehind files mode attributes (status, root, evs, fileName))) =
      .ok (rootReached fileOf files mode attributes root fileName) := by
  unfold openBehind
  dsimp only
  cases root with
  | none =>
      split
      · rfl
      · simp [reached, rootReached]
  | some root =>
      rw [h.success root rfl]
      cases fileName with
      | none => rfl
      | some name =>
          cases hopen : files.openFile root name mode attributes with
          | ok file => simp [reached, rootReached, fileReached, hopen, EfiStatus.isError]
          | error e => simp [reached, rootReached, fileReached, hopen, EfiStatus.isError]

/-- What a path reaches is what is behind its root. -/
theorem reached_usfOpen {this : Ptr} {filePath r : Text}
    (hnorm : usfFilePathNorm fw s filePath false = .ok (.ok r)) :
    reached fileOf (usfOpen fw files s (some this) (some filePath) mode attributes) =
      (fun found => rootReached fileOf files mode attributes found.2.1 found.2.2.2) <$>
        openRootOf fw s r := by
  simp only [usfOpen, hnorm, openUnified]
  cases hroot : openRootOf fw s r with
  | error stop => rfl
  | ok found => exact reached_behind fileOf files mode attributes (rootOpened hroot) found.2.2.2

end Reached

section LabelPath

variable {label : Text} (hsep : pathSepChar ∉ label) (hslash : ch '/' ∉ label) (fw : Firmware)
  (s : UsfPrivateData)

theorem pathPrefix_labelPath (label file : Text) : pathPrefix <+: labelPath label file := by
  have hstart : pathPrefix <+: rootTypeLabel := by decide
  exact hstart.trans (List.prefix_append _ _)

theorem strStr_labelPath (label file : Text) :
    strStr (labelPath label file) rootTypeLabel = some (labelPath label file) :=
  strStr_of_prefix (List.prefix_append _ _)

include hslash in
/-- `UsfOpen` takes the path as it is. -/
theorem norm_labelPath_direct (file : Text) :
    usfFilePathNorm fw s (labelPath label file) false =
      .ok (.ok (labelPath label (unifySeparators file))) := by
  have hne : labelPath label file ≠ [] := by simp [labelPath, rootTypeLabel, text]
  rw [norm_eq, if_neg hne, labelPath_unify hslash, normCopy,
    if_neg (not_not.mpr (pathPrefix_labelPath _ _)), if_neg (by simp)]

include hsep hslash in
/-- Any other is, by the volume that the search by device path finds. -/
theorem norm_labelPath {file : Text}
    (hinternal : ¬ rootTypeInternal <:+: labelPath label (unifySeparators file)) :
    usfFilePathNorm fw s (labelPath label file) true =
      match (getDevicePathByLabel fw label).1 with
      | none => .ok (.error .notFound)
      | some devPath =>
          match assertMapping fw s (some devPath) with
          | .error stop => .error stop
          | .ok mapping => .ok (.ok (unifiedPath mapping none (some (unifySeparators file)))) := by
  have hne : labelPath label file ≠ [] := by simp [labelPath, rootTypeLabel, text]
  have hdrive : strStr (labelPath label (unifySeparators file)) [driveChar] =
      some (driveChar :: (label ++ pathSepChar :: unifySeparators file)) := by
    have hfirst : driveChar ∉ text ['\\', '\\', 'L', 'A', 'B', 'E', 'L'] := by decide
    exact strStr_append_singleton hfirst (label ++ pathSepChar :: unifySeparators file)
  rw [norm_eq, if_neg hne, labelPath_unify hslash, normCopy,
    if_neg (not_not.mpr (pathPrefix_labelPath _ _)), if_pos ⟨rfl, strStr_eq_none.mpr hinternal⟩,
    strStr_labelPath]
  have hname := cutName_append hsep (unifySeparators file)
  cases hdev : (getDevicePathByLabel fw label).1 with
  | none =>
      simp only [normLabel, hdrive, List.drop_succ_cons, List.drop_zero, hname, hdev]
  | some devPath =>
      cases hmapping : assertMapping fw s (some devPath) with
      | error stop =>
          simp only [normLabel, hdrive, List.drop_succ_cons, List.drop_zero, hname, hdev, hmapping]
      | ok mapping =>
          simp only [normLabel, hdrive, List.drop_succ_cons, List.drop_zero, hname, hdev, hmapping]

include hsep in
theorem openRootOf_label {file : Text} (hinternal : ¬ rootTypeInternal <:+: labelPath label file) :
    ∃ found, openRootOf fw s (labelPath label file) = .ok found ∧
      found.2.1 = (findLabel fw label 64 (sfsHandles fw.handles)).map Prod.snd ∧
      found.2.2.2 = some file := by
  have hdrop : (labelPath label file).drop rootTypeLabel.length = label ++ pathSepChar :: file :=
    List.drop_left
  have hroot : (usfOpenRootByLabel fw label).2.1 =
      (findLabel fw label 64 (sfsHandles fw.handles)).map Prod.snd := by
    rw [usfOpenRootByLabel]
    split
    · next hnil => rw [hnil]; rfl
    · rw [openRootByLabelLoop_eq]
      cases findLabel fw label 64 (sfsHandles fw.handles) with
      | none => rfl
      | some found => rfl
  rw [openRootOf, if_neg (by simpa using strStr_eq_none.mpr hinternal), strStr_labelPath,
    if_pos (by simp), hdrop, cutName_append hsep]
  exact ⟨_, rfl, hroot, rfl⟩

theorem openRootOf_unified {stem : Text} (hstem : ∀ c ∈ stem, NameChar c) (file : Text) :
    openRootOf fw s (unifiedPath (stem ++ [driveChar]) none (some file)) =
      (fun found => (found.1, found.2.1, found.2.2,
        if file = [] then none else some (chopStart pathSepChar file))) <$>
          openRootByName fw s (stem ++ [driveChar]) := by
  have hsep : pathSepChar ∉ stem ++ [driveChar] := by
    intro hmem
    rcases List.mem_append.mp hmem with hmem | hmem
    · exact (hstem _ hmem).ne (Or.inr (Or.inl rfl)) rfl
    · exact absurd hmem (by decide)
  have hinternal : strStr (unifiedPath (stem ++ [driveChar]) none (some file)) rootTypeInternal ≠
      none := by
    rw [Ne, strStr_eq_none, not_not]
    exact ((List.prefix_append _ _).trans
      (prefix_unifiedPath _ (by simp) none (some file))).isInfix
  have hunified : (unifiedPath (stem ++ [driveChar]) none (some file)).drop
      rootTypeInternal.length =
        if file = [] then stem ++ [driveChar]
        else (stem ++ [driveChar]) ++ pathSepChar :: chopStart pathSepChar file := by
    have hlast : (rootTypeInternal ++ (stem ++ [driveChar])).getLast? ≠ some pathSepChar :=
      mappingRoot_getLast? stem
    have hne : rootTypeInternal ++ (stem ++ [driveChar]) ≠ [] := mappingRoot_ne_nil stem
    rw [unifiedPath_eq, Option.getD_none, join_nil, Option.getD_some]
    split
    · next hnil => rw [hnil, join_nil, List.drop_left]
    · next hfile =>
        rw [join_of_ne_nil hne hfile, chopEnd_of_ne hlast, List.append_assoc, List.drop_left]
  -- a mapping's name has no separator, so it is cut off whole
  have hcut : cutName ((unifiedPath (stem ++ [driveChar]) none (some file)).drop
      rootTypeInternal.length) =
        (stem ++ [driveChar], if file = [] then none else some (chopStart pathSepChar file)) := by
    rw [hunified]
    split
    · exact cutName_of_notMem hsep
    · exact cutName_append hsep _
  rw [openRootOf, if_pos hinternal, hcut]
  dsimp only
  cases openRootByName fw s (stem ++ [driveChar]) <;> rfl

end LabelPath

/-! ## When the two ways agree -/

section Agreement

variable {fw : Firmware} {frames' : Nat → Stack} {s : UsfPrivateData} {label : Text}

theorem getDevicePathByLabel_eq (fw : Firmware) (label : Text) :
    (getDevicePathByLabel fw label).1 =
      (findLabel fw label 99 (sfsHandles fw.handles)).bind (fun found => found.1.devicePath) :=
  (devicePathByLabelLoop_eq fw label (sfsHandles fw.handles)).1

/-- Directly, the root of the first volume with the label is found. -/
theorem reached_direct (hsep : pathSepChar ∉ label) (hslash : ch '/' ∉ label) {β : Type}
    (fileOf : Ptr → β) (files : Files) (file : Text) (this : Ptr) (mode attributes : UInt64)
    (hinternal : ¬ Internal label file) :
    reached fileOf (usfOpen fw files s (some this) (some (labelPath label file)) mode attributes) =
      .ok (rootReached fileOf files mode attributes
        ((findLabel fw label 64 (sfsHandles fw.handles)).map Prod.snd)
        (some (unifySeparators file))) := by
  obtain ⟨found, hfound, hroot, hname⟩ := openRootOf_label hsep fw s hinternal
  rw [reached_usfOpen fileOf fw files s mode attributes (norm_labelPath_direct hslash fw s file),
    hfound, ← hroot, ← hname]
  rfl

/-- Opening what a label has been converted to is opening a root by its mapping name. -/
theorem reached_unified {stem : Text} (hstem : ∀ c ∈ stem, NameChar c) {β : Type}
    (fileOf : Ptr → β) (files : Files) (file : Text) (hfile : ch '/' ∉ file) (this : Ptr)
    (mode attributes : UInt64) :
    reached fileOf (usfOpen fw files s (some this)
        (some (unifiedPath (stem ++ [driveChar]) none (some file))) mode attributes) =
      (fun found : EfiStatus × Option Ptr => rootReached fileOf files mode attributes found.2
        (if file = [] then none else some (chopStart pathSepChar file))) <$>
        usfOpenRoot fw.platform fw.devicePathCompare fw.frames s.fileSystemTable fw.handles
          (stem ++ [driveChar]) := by
  have hlast : (stem ++ [driveChar]).getLast? = some driveChar := by simp
  have hnorm := norm_unifiedPath hlast none (some file) (slash_notMem_name hstem) (by simp) hfile
    fw s false
  rw [reached_usfOpen fileOf fw files s mode attributes hnorm, openRootOf_unified fw s hstem file,
    openRootByName]
  cases usfOpenRoot fw.platform fw.devicePathCompare fw.frames s.fileSystemTable fw.handles
    (stem ++ [driveChar]) <;> rfl

/-- The root of the name is that of the first volume that opens, if that one has the name and the
search gets as far. -/
theorem usfOpenRoot_first {frames : Nat → Stack} {pre post : List Handle} {v : Handle} {root : Ptr}
    {mapping : Text} (horder : sfsHandles fw.handles = pre ++ v :: post)
    (hpre : ∀ u ∈ pre, ∀ r, u.openVolume ≠ .ok r) (hopens : v.openVolume = .ok root)
    (hpost : ∀ w ∈ post, w.openVolume ≠ .ok root) :
    (∃ status, usfOpenRoot fw.platform fw.devicePathCompare frames s.fileSystemTable fw.handles
        mapping = .ok (status, some root)) ↔
      (∀ u ∈ pre, u.devicePath ≠ none) ∧
        v.name fw.platform fw.devicePathCompare (frames pre.length) s.fileSystemTable =
          .ok (some mapping) := by
  have hne : sfsHandles fw.handles ≠ [] := by simp [horder]
  rw [usfOpenRoot, if_neg hne, horder]
  by_cases hpaths : ∀ u ∈ pre, u.devicePath ≠ none
  · obtain ⟨status, hstatus⟩ := @openRootLoop_append fw.platform fw.devicePathCompare frames
      s.fileSystemTable mapping pre (fun u hu => .inl (hpre u hu)) hpaths (v :: post) 0 .success
    rw [hstatus, openRootLoop, Nat.zero_add, and_iff_right hpaths]
    constructor
    · rintro ⟨st, h⟩
      split at h
      · cases h
      · next found hname =>
          split at h
          · next hfound => exact hname.trans (congrArg _ hfound)
          · -- a later handle would have given the same root
            obtain ⟨w, hw, hroot⟩ := openRootLoop_given _ _ _ h
            exact absurd hroot (hpost w hw)
    · intro hname
      simp only [hname, if_true, hopens]
      exact ⟨_, rfl⟩
  · have hpathless : ∃ u ∈ pre, u.devicePath = none := by
      push Not at hpaths
      exact hpaths
    have hstops := @openRootLoop_pathless fw.platform fw.devicePathCompare frames
      s.fileSystemTable mapping pre (fun u hu => .inl (hpre u hu)) hpathless (v :: post) 0 .success
    rw [hstops]
    refine iff_of_false ?_ fun h => hpaths h.1
    rintro ⟨status, h⟩
    cases h

theorem assertMapping_name {v : Handle} {devPath : DevicePath}
    (hpath : v.devicePath = some devPath) {mapping : Text} :
    assertMapping fw s (some devPath) = .ok mapping ↔
      v.name fw.platform fw.devicePathCompare fw.stack s.fileSystemTable = .ok (some mapping) := by
  rw [name_some hpath, assertMapping]
  cases getConsistMappingName fw.platform fw.devicePathCompare fw.stack devPath
    s.fileSystemTable with
  | none => simp
  | some name => simp

section First

variable {pre post : List Handle} {v : Handle} {root : Ptr}

theorem FirstVolume.shown (h : FirstVolume fw label pre v post root) {n : Nat} (hn : 64 ≤ n) :
    findLabel fw label n (sfsHandles fw.handles) = some (v, root) := by
  have hshort := h.short
  rw [h.order]
  exact findLabel_first h.before h.opens (getVolumeLabel_eq_ok.mpr ⟨h.labelled, by omega⟩)

theorem FirstVolume.mem (h : FirstVolume fw label pre v post root) : v ∈ fw.handles := by
  refine mem_of_mem_sfsHandles ?_
  rw [h.order]
  simp

/-- The converted path leads to a root by its name, if the volume has one. -/
theorem FirstVolume.reached_converted (h : FirstVolume fw label pre v post root)
    (hsep : pathSepChar ∉ label) (hslash : ch '/' ∉ label) {devPath : DevicePath} {stem : Text}
    (hpath : v.devicePath = some devPath)
    (hmapping : assertMapping fw s (some devPath) = .ok (stem ++ [driveChar]))
    (hstem : ∀ c ∈ stem, NameChar c) {β : Type} (fileOf : Ptr → β) (files : Files) (file : Text)
    (this : Ptr) (mode attributes : UInt64) (hinternal : ¬ Internal label file) :
    reached fileOf (openConverted fw frames' files s this (labelPath label file) mode
        attributes) =
      (fun found : EfiStatus × Option Ptr => rootReached fileOf files mode attributes found.2
        (if unifySeparators file = [] then none
          else some (chopStart pathSepChar (unifySeparators file)))) <$>
        usfOpenRoot fw.platform fw.devicePathCompare frames' s.fileSystemTable fw.handles
          (stem ++ [driveChar]) := by
  rw [openConverted, norm_labelPath hsep hslash fw s hinternal, getDevicePathByLabel_eq,
    h.shown (by omega), Option.bind_some, hpath]
  simp only [hmapping]
  exact @reached_unified { fw with frames := frames' } s stem hstem β fileOf files _
    (slash_notMem_unifySeparators file) this mode attributes

/-- The first volume that opens is the one: both ways reach its files. -/
theorem FirstVolume.same (h : FirstVolume fw label pre v post root) (hsep : pathSepChar ∉ label)
    (hslash : ch '/' ∉ label) {mapping : Text} (hnamed : NamedTwice fw frames' s pre v mapping)
    (hpost : ∀ w ∈ post, w.openVolume ≠ .ok root) {β : Type} (fileOf : Ptr → β) (files : Files)
    (hrooted : Rooted fw fileOf files) {file : Text} (hfile : file ≠ []) (this : Ptr)
    (mode attributes : UInt64) (hinternal : ¬ Internal label file) :
    reached fileOf (usfOpen fw files s (some this) (some (labelPath label file)) mode
        attributes) =
      .ok (fileReached fileOf (files.openFile root (unifySeparators file) mode attributes)) ∧
    reached fileOf (openConverted fw frames' files s this (labelPath label file) mode
        attributes) =
      .ok (fileReached fileOf (files.openFile root (unifySeparators file) mode attributes)) := by
  constructor
  · rw [reached_direct hsep hslash fileOf files file this mode attributes hinternal,
      h.shown (Nat.le_refl 64)]
    rfl
  · obtain ⟨devPath, hpath⟩ : ∃ devPath, v.devicePath = some devPath := by
      cases hpath : v.devicePath with
      | none =>
          have hname := hnamed.named
          rw [name_none hpath] at hname
          cases hname
      | some devPath => exact ⟨devPath, rfl⟩
    have hmapping := (assertMapping_name hpath).mpr hnamed.named
    obtain ⟨stem, rfl, hstem, -⟩ := assertMapping_ok hmapping
    obtain ⟨status, hroot⟩ := (usfOpenRoot_first h.order h.before h.opens hpost).mpr
      ⟨hnamed.paths, hnamed.named'⟩
    have hne : unifySeparators file ≠ [] := by simpa [unifySeparators] using hfile
    rw [h.reached_converted hsep hslash hpath hmapping hstem fileOf files file this mode attributes
      hinternal, hroot, if_neg hne]
    refine congrArg Except.ok ?_
    -- a leading separator has been dropped on this way only
    dsimp only [rootReached]
    by_cases hhead : (unifySeparators file).head? = some pathSepChar
    · obtain ⟨rest, hrest⟩ := List.head?_eq_some_iff.mp hhead
      rw [hrest, chopStart_cons, hrooted v h.mem root h.opens]
    · rw [chopStart_of_ne hhead]

end First

end Agreement

/-- A second volume, on another namespace; the first is labelled `EFI`. -/
def twoVolumes : Firmware :=
  { nvmeFirmware with
    handles := [nvmeVolume 7 1 1, nvmeVolume 8 2 1]
    volumeLabel := fun v =>
      if v.id = 7 then .ok (text ['E', 'F', 'I']) else .ok (text ['D', 'A', 'T', 'A']) }

end EfiLvgl.Usf
