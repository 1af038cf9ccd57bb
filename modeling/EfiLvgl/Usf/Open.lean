import EfiLvgl.Mapping.Lookup
import EfiLvgl.Usf.WorkingDirectory

/-!
# EfiLvgl.Usf.Open — volume roots and files

`UsfOpen` of `usf.c` with its two ways to a volume root, by mapping name and by label,
and what they open and close on the way. `net` counts for one handle how often it has
been opened more than closed: `openRootByLabelLoop_eq` says that the search by label leaves
every volume open that it has passed over, `usfOpen_opened` what that means for
`UsfOpen`.
-/

namespace EfiLvgl.Usf

open EfiLvgl.Search EfiLvgl.Mapping

/-- The calls on opened files: `Open` on a root, `FileHandleGetInfo`, of which the
attribute is read, and `FileHandleGetSize`. -/
structure Files where
  openFile : Ptr → Text → UInt64 → UInt64 → Except EfiStatus Ptr
  getInfo : Ptr → Option UInt64
  getSize : Ptr → Except EfiStatus UInt64

/-! ## Roots -/

/-- The loop of `UsfOpenRootByLabel`. -/
def openRootByLabelLoop (fw : Firmware) (rootLabel : Text) :
    List Handle → EfiStatus → EfiStatus × Option Ptr × List FileEvent
  | [], status => (status, none, [])
  | handle :: handles, _ =>
      match handle.openVolume with
      | .ok root =>
          if fw.getVolumeLabel handle 64 = .ok rootLabel then
            (.success, some root, [.opened root])
          else
            let (status, rootFile, evs) := openRootByLabelLoop fw rootLabel handles .volumeCorrupted
            (status, rootFile, .opened root :: evs)
      | .error _ => openRootByLabelLoop fw rootLabel handles .volumeCorrupted

/-- `UsfOpenRootByLabel`; `LocateHandleBuffer` fails when there is no handle. -/
def usfOpenRootByLabel (fw : Firmware) (rootLabel : Text) :
    EfiStatus × Option Ptr × List FileEvent :=
  if sfsHandles fw.handles = [] then (.notFound, none, [])
  else openRootByLabelLoop fw rootLabel (sfsHandles fw.handles) .success

/-- `UsfOpenRoot`, with the root it opens; of the others it opens none. -/
def openRootByName (fw : Firmware) (s : UsfPrivateData) (rootName : Text) :
    Except Stop (EfiStatus × Option Ptr × List FileEvent) :=
  match usfOpenRoot fw.platform fw.devicePathCompare fw.frames s.fileSystemTable fw.handles
    rootName with
  | .error stop => .error stop
  | .ok (status, root) => .ok (status, root, (root.map FileEvent.opened).toList)

/-- The root that a unified path begins with, and the file name behind it. -/
def openRootOf (fw : Firmware) (s : UsfPrivateData) (fileNormPath : Text) :
    Except Stop (EfiStatus × Option Ptr × List FileEvent × Option Text) :=
  if strStr fileNormPath rootTypeInternal ≠ none then
    let (rootName, fileName) := cutName (fileNormPath.drop rootTypeInternal.length)
    match openRootByName fw s rootName with
    | .error stop => .error stop
    | .ok (status, root, evs) => .ok (status, root, evs, fileName)
  else if strStr fileNormPath rootTypeLabel ≠ none then
    let (rootName, fileName) := cutName (fileNormPath.drop rootTypeLabel.length)
    let (status, root, evs) := usfOpenRootByLabel fw rootName
    .ok (status, root, evs, fileName)
  else .ok (.notFound, none, [], none)

/-- `UsfOpen` from the root on. -/
def openBehind (files : Files) (mode attributes : UInt64) :
    EfiStatus × Option Ptr × List FileEvent × Option Text → EfiStatus × Option Ptr × List FileEvent
  | (status, root, evs, fileName) =>
      if status.isError then (.volumeCorrupted, none, evs)
      else
        match root, fileName with
        | some root, some fileName =>
            match files.openFile root fileName mode attributes with
            | .ok file => (.success, some file, evs ++ [.opened file, .closed root])
            | .error status => (status, none, evs ++ [.closed root])
        | root, _ => (status, root, evs)

/-- `UsfOpen` from the unified path on. -/
def openUnified (fw : Firmware) (files : Files) (s : UsfPrivateData) (fileNormPath : Text)
    (mode attributes : UInt64) : Except Stop (EfiStatus × Option Ptr × List FileEvent) :=
  match openRootOf fw s fileNormPath with
  | .error stop => .error stop
  | .ok found => .ok (openBehind files mode attributes found)

/-- `UsfOpen`: the status, `*FileHandle`, and what is opened and closed. -/
def usfOpen (fw : Firmware) (files : Files) (s : UsfPrivateData) (this : Option Ptr)
    (filePath : Option Text) (mode attributes : UInt64) :
    Except Stop (EfiStatus × Option Ptr × List FileEvent) :=
  match this, filePath with
  | some _, some filePath =>
      match usfFilePathNorm fw s filePath false with
      | .error stop => .error stop
      | .ok (.error _) => .ok (.unsupported, none, [])
      | .ok (.ok fileNormPath) => openUnified fw files s fileNormPath mode attributes
  | _, _ => .ok (.invalidParameter, none, [])

/-! ## Opened and not closed -/

/-- What an event adds to the count of a handle. -/
def FileEvent.change (file : Ptr) : FileEvent → Int
  | .opened f => if f = file then 1 else 0
  | .closed f => if f = file then -1 else 0
  | _ => 0

/-- How often a handle has been opened more than closed. -/
def net (file : Ptr) (evs : List FileEvent) : Int := (evs.map (FileEvent.change file)).sum

@[simp] theorem net_nil (file : Ptr) : net file [] = 0 := rfl

@[simp] theorem net_cons (file : Ptr) (e : FileEvent) (evs : List FileEvent) :
    net file (e :: evs) = e.change file + net file evs := by
  simp [net]

@[simp] theorem net_append (file : Ptr) (evs evs' : List FileEvent) :
    net file (evs ++ evs') = net file evs + net file evs' := by
  simp [net]

@[simp] theorem change_opened (file f : Ptr) :
    (FileEvent.opened f).change file = if f = file then 1 else 0 := rfl

@[simp] theorem change_closed (file f : Ptr) :
    (FileEvent.closed f).change file = if f = file then -1 else 0 := rfl

/-! ## The search by label -/

/-- The first volume that opens and shows the label in a buffer of that length. -/
def findLabel (fw : Firmware) (label : Text) (labelLength : Nat) :
    List Handle → Option (Handle × Ptr)
  | [] => none
  | handle :: handles =>
      match handle.openVolume with
      | .ok root =>
          if fw.getVolumeLabel handle labelLength = .ok label then some (handle, root)
          else findLabel fw label labelLength handles
      | .error _ => findLabel fw label labelLength handles

/-- The roots that the search opens and passes over. -/
def passedOver (fw : Firmware) (label : Text) (labelLength : Nat) : List Handle → List Ptr
  | [] => []
  | handle :: handles =>
      match handle.openVolume with
      | .ok root =>
          if fw.getVolumeLabel handle labelLength = .ok label then []
          else root :: passedOver fw label labelLength handles
      | .error _ => passedOver fw label labelLength handles

/-- `UsfOpenRootByLabel` opens what it passes over and does not close it. -/
theorem openRootByLabelLoop_eq (fw : Firmware) (label : Text) (handles : List Handle)
    (status : EfiStatus) :
    openRootByLabelLoop fw label handles status =
      match findLabel fw label 64 handles with
      | some (_, root) =>
          (.success, some root, (passedOver fw label 64 handles).map .opened ++ [.opened root])
      | none =>
          (if handles = [] then status else .volumeCorrupted, none,
            (passedOver fw label 64 handles).map .opened) := by
  induction handles generalizing status with
  | nil => rfl
  | cons handle handles ih =>
      rw [openRootByLabelLoop, findLabel, passedOver, ih .volumeCorrupted]
      cases handle.openVolume with
      | error e =>
          simp only
          cases findLabel fw label 64 handles with
          | none => simp
          | some found => rfl
      | ok root =>
          by_cases hlabel : fw.getVolumeLabel handle 64 = .ok label
          · -- the search ends here
            simp [hlabel]
          · simp only [hlabel, if_false]
            cases findLabel fw label 64 handles with
            | none => simp
            | some found => simp

/-- `GetDevicePathByLabel` closes every root again. -/
theorem devicePathByLabelLoop_eq (fw : Firmware) (label : Text) (handles : List Handle) :
    (devicePathByLabelLoop fw label handles).1 =
        (findLabel fw label 99 handles).bind (fun found => found.1.devicePath) ∧
      ∀ file, net file (devicePathByLabelLoop fw label handles).2 = 0 := by
  induction handles with
  | nil => exact ⟨rfl, fun _ => rfl⟩
  | cons handle handles ih =>
      rw [devicePathByLabelLoop, findLabel]
      cases handle.openVolume with
      | error e => exact ih
      | ok root =>
          by_cases hlabel : fw.getVolumeLabel handle 99 = .ok label
          · simp only [hlabel, if_true]
            constructor
            · rfl
            · intro file
              by_cases hfile : root = file
              · simp [hfile]
              · simp [hfile]
          · simp only [hlabel, if_false]
            constructor
            · exact ih.1
            · -- opened and closed, then the rest
              intro file
              rw [net_cons, net_cons, ih.2 file]
              by_cases hfile : root = file
              · simp [hfile]
              · simp [hfile]

theorem net_map_opened (file : Ptr) (roots : List Ptr) :
    net file (roots.map .opened) = roots.count file := by
  induction roots with
  | nil => rfl
  | cons root roots ih =>
      rw [List.map_cons, net_cons, ih, change_opened]
      by_cases hfile : root = file
      · simp [hfile, Int.add_comm]
      · simp [hfile]

theorem count_head_ne_zero {stray : List Ptr} (h : stray ≠ []) :
    ∃ root, (stray.count root : Int) ≠ 0 := by
  obtain ⟨root, hroot⟩ := List.exists_mem_of_ne_nil stray h
  have hpos := List.count_pos_iff.mpr hroot
  exact ⟨root, by omega⟩

/-! ## Roots and files -/

/-- What `UsfOpen` leaves open besides the handle that it returns. -/
def strayRoots (fw : Firmware) (fileNormPath : Text) : List Ptr :=
  if strStr fileNormPath rootTypeInternal ≠ none then []
  else if strStr fileNormPath rootTypeLabel ≠ none then
    passedOver fw (cutName (fileNormPath.drop rootTypeLabel.length)).1 64 (sfsHandles fw.handles)
  else []

/-- The loop has a status of its own only where it has found no root. -/
theorem openRootLoop_some {name : Nat → Handle → Except Stop (Option Text)} {rootName : Text}
    {root : Ptr} : ∀ (handles : List Handle) (i : Nat) (status : EfiStatus) {st : EfiStatus},
      openRootLoop name rootName i handles status = .ok (st, some root) → st = .success
  | [], _, _, _, h => by cases h
  | handle :: handles, i, status, st, h => by
      rw [openRootLoop] at h
      split at h
      · cases h
      · split at h
        · split at h
          · cases h
            rfl
          · exact openRootLoop_some handles (i + 1) _ h
        · exact openRootLoop_some handles (i + 1) _ h

/-- What has been opened on the way to a root, and how. -/
structure RootOpened (stray : List Ptr) (status : EfiStatus) (root : Option Ptr)
    (evs : List FileEvent) : Prop where
  opened : ∀ file, net file evs = stray.count file + if root = some file then 1 else 0
  success : ∀ r, root = some r → status = .success

theorem openRootByName_ok {fw : Firmware} {s : UsfPrivateData} {rootName : Text}
    {found : EfiStatus × Option Ptr × List FileEvent} (h : openRootByName fw s rootName = .ok found) :
    usfOpenRoot fw.platform fw.devicePathCompare fw.frames s.fileSystemTable fw.handles rootName =
      .ok (found.1, found.2.1) ∧ found.2.2 = (found.2.1.map FileEvent.opened).toList := by
  rw [openRootByName] at h
  split at h
  · cases h
  · next hroot =>
      cases h
      exact ⟨hroot, rfl⟩

theorem rootOpened_byName {fw : Firmware} {s : UsfPrivateData} {rootName : Text}
    {found : EfiStatus × Option Ptr × List FileEvent} (h : openRootByName fw s rootName = .ok found) :
    RootOpened [] found.1 found.2.1 found.2.2 := by
  obtain ⟨hroot, hevs⟩ := openRootByName_ok h
  constructor
  · intro file
    rw [hevs]
    cases found.2.1 with
    | none => simp
    | some root => simp
  · intro r hr
    rw [hr, usfOpenRoot] at hroot
    split at hroot
    · exact absurd (congrArg Prod.snd (Except.ok.inj hroot)) (by simp)
    · exact openRootLoop_some _ _ _ hroot

theorem rootOpened_byLabel (fw : Firmware) (rootLabel : Text) :
    RootOpened (passedOver fw rootLabel 64 (sfsHandles fw.handles))
      (usfOpenRootByLabel fw rootLabel).1 (usfOpenRootByLabel fw rootLabel).2.1
      (usfOpenRootByLabel fw rootLabel).2.2 := by
  rw [usfOpenRootByLabel]
  split
  · next hnil =>
      rw [hnil]
      exact ⟨fun _ => rfl, fun _ h => by cases h⟩
  · rw [openRootByLabelLoop_eq]
    cases findLabel fw rootLabel 64 (sfsHandles fw.handles) with
    | none =>
        constructor
        · intro file
          simp [net_map_opened]
        · intro r hr
          cases hr
    | some found =>
        constructor
        · intro file
          simp [net_map_opened]
        · intro r _
          rfl

theorem rootOpened {fw : Firmware} {s : UsfPrivateData} {fileNormPath : Text}
    {found : EfiStatus × Option Ptr × List FileEvent × Option Text}
    (h : openRootOf fw s fileNormPath = .ok found) :
    RootOpened (strayRoots fw fileNormPath) found.1 found.2.1 found.2.2.1 := by
  rw [openRootOf] at h
  rw [strayRoots]
  by_cases hinternal : strStr fileNormPath rootTypeInternal ≠ none
  · rw [if_pos hinternal] at h ⊢
    simp only at h
    split at h
    · cases h
    · next hroot =>
        cases h
        exact rootOpened_byName hroot
  · rw [if_neg hinternal] at h ⊢
    by_cases hlabel : strStr fileNormPath rootTypeLabel ≠ none
    · rw [if_pos hlabel] at h ⊢
      cases h
      exact rootOpened_byLabel fw _
    · rw [if_neg hlabel] at h ⊢
      cases h
      exact ⟨fun _ => rfl, fun _ h => by cases h⟩

/-- Besides the handle that it returns, `UsfOpen` leaves the stray roots open. -/
theorem RootOpened.behind {stray : List Ptr} {status : EfiStatus} {root : Option Ptr}
    {evs : List FileEvent} (h : RootOpened stray status root evs) (files : Files)
    (mode attributes : UInt64) (fileName : Option Text) :
    RootOpened stray (openBehind files mode attributes (status, root, evs, fileName)).1
      (openBehind files mode attributes (status, root, evs, fileName)).2.1
      (openBehind files mode attributes (status, root, evs, fileName)).2.2 := by
  unfold openBehind
  dsimp only
  by_cases herror : status.isError = true
  · -- no root has been returned
    have hnone : root = none := by
      cases root with
      | none => rfl
      | some r =>
          rw [h.success r rfl] at herror
          cases herror
    rw [if_pos herror]
    refine ⟨fun file => ?_, fun _ hr => by cases hr⟩
    rw [h.opened file, hnone]
  · rw [if_neg herror]
    cases root with
    | none => exact h
    | some root =>
        cases fileName with
        | none => exact h
        | some fileName =>
            dsimp only
            cases files.openFile root fileName mode attributes with
            | error e =>
                -- the root is closed again
                refine ⟨fun file => ?_, fun _ hr => by cases hr⟩
                dsimp only
                rw [net_append, h.opened file]
                by_cases hroot : root = file
                · simp [hroot]
                · simp [hroot]
            | ok f =>
                -- the root is closed, and the file is the handle that is returned
                refine ⟨fun file => ?_, fun _ _ => rfl⟩
                dsimp only
                rw [net_append, h.opened file]
                by_cases hroot : root = file
                · by_cases hf : f = file
                  · simp [hroot, hf]
                  · simp [hroot, hf]
                · simp [hroot]

theorem openUnified_opened {fw : Firmware} {files : Files} {s : UsfPrivateData}
    {fileNormPath : Text} {mode attributes : UInt64} {status : EfiStatus} {fh : Option Ptr}
    {evs : List FileEvent}
    (h : openUnified fw files s fileNormPath mode attributes = .ok (status, fh, evs)) :
    RootOpened (strayRoots fw fileNormPath) status fh evs := by
  rw [openUnified] at h
  split at h
  · cases h
  · next found hroot =>
      have hopened := (rootOpened hroot).behind files mode attributes found.2.2.2
      rw [Except.ok.inj h] at hopened
      exact hopened

/-- The roots that stay open after `UsfOpen` of a path. -/
def strayOf (fw : Firmware) (s : UsfPrivateData) (filePath : Text) : List Ptr :=
  match usfFilePathNorm fw s filePath false with
  | .ok (.ok fileNormPath) => strayRoots fw fileNormPath
  | _ => []

theorem usfOpen_opened {fw : Firmware} {files : Files} {s : UsfPrivateData} {this : Ptr}
    {filePath : Text} {mode attributes : UInt64} {status : EfiStatus} {fh : Option Ptr}
    {evs : List FileEvent}
    (h : usfOpen fw files s (some this) (some filePath) mode attributes =
      .ok (status, fh, evs)) : RootOpened (strayOf fw s filePath) status fh evs := by
  simp only [usfOpen] at h
  rw [strayOf]
  split at h
  · cases h
  · next hnorm =>
      cases h
      rw [hnorm]
      exact ⟨fun _ => rfl, fun _ h => by cases h⟩
  · next path hnorm =>
      rw [hnorm]
      exact openUnified_opened h

/-! ## The order of the openings -/

/-- What `UsfOpen` does behind the roots that it passes over, and the handle it returns. The one
handle it closes is a root that it has opened just before. -/
inductive OpenedBy : Option Ptr → List FileEvent → Prop where
  | nothing : OpenedBy none []
  | noFile (root : Ptr) : OpenedBy none [.opened root, .closed root]
  | root (root : Ptr) : OpenedBy (some root) [.opened root]
  | file (root f : Ptr) : OpenedBy (some f) [.opened root, .opened f, .closed root]

theorem usfOpenRootByLabel_events (fw : Firmware) (rootLabel : Text) :
    (usfOpenRootByLabel fw rootLabel).2.2 =
      (passedOver fw rootLabel 64 (sfsHandles fw.handles)).map .opened ++
        ((usfOpenRootByLabel fw rootLabel).2.1.map FileEvent.opened).toList := by
  rw [usfOpenRootByLabel]
  split
  · next hnil =>
      rw [hnil]
      rfl
  · rw [openRootByLabelLoop_eq]
    cases findLabel fw rootLabel 64 (sfsHandles fw.handles) with
    | none => simp
    | some found => simp

/-- The roots that are passed over come first. -/
theorem openRootOf_events {fw : Firmware} {s : UsfPrivateData} {fileNormPath : Text}
    {found : EfiStatus × Option Ptr × List FileEvent × Option Text}
    (h : openRootOf fw s fileNormPath = .ok found) :
    found.2.2.1 = (strayRoots fw fileNormPath).map .opened ++
      (found.2.1.map FileEvent.opened).toList := by
  rw [openRootOf] at h
  rw [strayRoots]
  by_cases hinternal : strStr fileNormPath rootTypeInternal ≠ none
  · rw [if_pos hinternal] at h ⊢
    simp only at h
    split at h
    · cases h
    · next hroot =>
        cases h
        exact (openRootByName_ok hroot).2
  · rw [if_neg hinternal] at h ⊢
    by_cases hlabel : strStr fileNormPath rootTypeLabel ≠ none
    · rw [if_pos hlabel] at h ⊢
      cases h
      exact usfOpenRootByLabel_events fw _
    · rw [if_neg hlabel] at h ⊢
      cases h
      rfl

theorem openBehind_shape {stray : List Ptr} {status : EfiStatus} {root : Option Ptr}
    {evs : List FileEvent} (hopened : RootOpened stray status root evs)
    (hevs : evs = stray.map .opened ++ (root.map FileEvent.opened).toList) (files : Files)
    (mode attributes : UInt64) (fileName : Option Text) :
    ∃ behind, (openBehind files mode attributes (status, root, evs, fileName)).2.2 =
        stray.map .opened ++ behind ∧
      OpenedBy (openBehind files mode attributes (status, root, evs, fileName)).2.1 behind := by
  unfold openBehind
  dsimp only
  cases root with
  | none =>
      refine ⟨[], ?_, ?_⟩
      · split
        · exact hevs
        · exact hevs
      · split
        · exact .nothing
        · exact .nothing
  | some root =>
      have hsuccess : status.isError = false := by
        rw [hopened.success root rfl]
        rfl
      rw [hsuccess, if_neg Bool.false_ne_true]
      cases fileName with
      | none => exact ⟨[.opened root], hevs, .root root⟩
      | some fileName =>
          -- the root is closed whether or not the file opened
          dsimp only
          cases files.openFile root fileName mode attributes with
          | error e =>
              refine ⟨[.opened root, .closed root], ?_, .noFile root⟩
              rw [hevs]
              simp
          | ok f =>
              refine ⟨[.opened root, .opened f, .closed root], ?_, .file root f⟩
              rw [hevs]
              simp

theorem usfOpen_shape {fw : Firmware} {files : Files} {s : UsfPrivateData} {this : Ptr}
    {filePath : Text} {mode attributes : UInt64} {status : EfiStatus} {fh : Option Ptr}
    {evs : List FileEvent}
    (h : usfOpen fw files s (some this) (some filePath) mode attributes = .ok (status, fh, evs)) :
    ∃ behind, evs = (strayOf fw s filePath).map .opened ++ behind ∧ OpenedBy fh behind := by
  simp only [usfOpen] at h
  rw [strayOf]
  split at h
  · cases h
  · next hnorm =>
      cases h
      rw [hnorm]
      exact ⟨[], rfl, .nothing⟩
  · next path hnorm =>
      rw [hnorm]
      rw [openUnified] at h
      split at h
      · cases h
      · next found hroot =>
          have hshape := openBehind_shape (rootOpened hroot) (openRootOf_events hroot) files mode
            attributes found.2.2.2
          rw [Except.ok.inj h] at hshape
          exact hshape

/-! ## Where handles come from -/

theorem openRootLoop_given {name : Nat → Handle → Except Stop (Option Text)} {rootName : Text}
    {root : Ptr} : ∀ (handles : List Handle) (i : Nat) (status : EfiStatus) {st : EfiStatus},
      openRootLoop name rootName i handles status = .ok (st, some root) →
        ∃ v ∈ handles, v.openVolume = .ok root
  | [], _, _, _, h => by cases h
  | handle :: handles, i, status, st, h => by
      have hrest : (∃ v ∈ handles, v.openVolume = .ok root) →
          ∃ v ∈ handle :: handles, v.openVolume = .ok root := by
        rintro ⟨v, hv, hopen⟩
        exact ⟨v, by simp [hv], hopen⟩
      rw [openRootLoop] at h
      split at h
      · cases h
      · split at h
        · split at h
          · next r hopen =>
              cases h
              exact ⟨handle, by simp, hopen⟩
          · exact hrest (openRootLoop_given handles (i + 1) _ h)
        · exact hrest (openRootLoop_given handles (i + 1) _ h)

theorem findLabel_given {fw : Firmware} {label : Text} {labelLength : Nat} {handles : List Handle}
    {found : Handle × Ptr} (h : findLabel fw label labelLength handles = some found) :
    found.1 ∈ handles ∧ found.1.openVolume = .ok found.2 := by
  induction handles with
  | nil => cases h
  | cons handle handles ih =>
      rw [findLabel] at h
      split at h
      · next root hopen =>
          split at h
          · cases h
            exact ⟨by simp, hopen⟩
          · exact ⟨by simp [(ih h).1], (ih h).2⟩
      · exact ⟨by simp [(ih h).1], (ih h).2⟩

theorem mem_of_mem_sfsHandles {handles : List Handle} {v : Handle} (h : v ∈ sfsHandles handles) :
    v ∈ handles :=
  (List.mem_filter.mp h).1

theorem usfOpenRootByLabel_given (fw : Firmware) (rootLabel : Text) :
    (∀ root, (usfOpenRootByLabel fw rootLabel).2.1 = some root →
      ∃ v ∈ fw.handles, v.openVolume = .ok root) ∧
    ∀ file, .closed file ∉ (usfOpenRootByLabel fw rootLabel).2.2 := by
  rw [usfOpenRootByLabel]
  split
  · simp
  · rw [openRootByLabelLoop_eq]
    cases hfind : findLabel fw rootLabel 64 (sfsHandles fw.handles) with
    | none => simp
    | some found =>
        obtain ⟨hmem, hopen⟩ := findLabel_given hfind
        constructor
        · intro root hroot
          cases hroot
          exact ⟨found.1, mem_of_mem_sfsHandles hmem, hopen⟩
        · intro file
          simp

theorem openRootByName_given {fw : Firmware} {s : UsfPrivateData} {rootName : Text}
    {found : EfiStatus × Option Ptr × List FileEvent} (h : openRootByName fw s rootName = .ok found) :
    (∀ root, found.2.1 = some root → ∃ v ∈ fw.handles, v.openVolume = .ok root) ∧
    ∀ file, .closed file ∉ found.2.2 := by
  obtain ⟨hopen, hevs⟩ := openRootByName_ok h
  constructor
  · intro root hroot
    rw [hroot, usfOpenRoot] at hopen
    split at hopen
    · exact absurd (congrArg Prod.snd (Except.ok.inj hopen)) (by simp)
    · obtain ⟨v, hv, hvolume⟩ := openRootLoop_given _ _ _ hopen
      exact ⟨v, mem_of_mem_sfsHandles hv, hvolume⟩
  · intro file
    rw [hevs]
    simp

/-- A root is one that `OpenVolume` has given out, and on the way to it none is closed. -/
theorem openRootOf_given {fw : Firmware} {s : UsfPrivateData} {fileNormPath : Text}
    {found : EfiStatus × Option Ptr × List FileEvent × Option Text}
    (h : openRootOf fw s fileNormPath = .ok found) :
    (∀ root, found.2.1 = some root → ∃ v ∈ fw.handles, v.openVolume = .ok root) ∧
    ∀ file, .closed file ∉ found.2.2.1 := by
  rw [openRootOf] at h
  by_cases hinternal : strStr fileNormPath rootTypeInternal ≠ none
  · rw [if_pos hinternal] at h
    simp only at h
    split at h
    · cases h
    · next hname =>
        cases h
        exact openRootByName_given hname
  · rw [if_neg hinternal] at h
    by_cases hlabel : strStr fileNormPath rootTypeLabel ≠ none
    · rw [if_pos hlabel] at h
      cases h
      exact usfOpenRootByLabel_given fw _
    · rw [if_neg hlabel] at h
      cases h
      simp

/-- What `UsfOpen` closes or returns has been given out in the same call. -/
theorem usfOpen_given {fw : Firmware} {files : Files} {s : UsfPrivateData} {this : Ptr}
    {filePath : Text} {mode attributes : UInt64} {status : EfiStatus} {fh : Option Ptr}
    {evs : List FileEvent}
    (h : usfOpen fw files s (some this) (some filePath) mode attributes = .ok (status, fh, evs))
    {handle : Ptr} (hgiven : .closed handle ∈ evs ∨ fh = some handle) :
    (∃ v ∈ fw.handles, v.openVolume = .ok handle) ∨
      ∃ root name, files.openFile root name mode attributes = .ok handle := by
  simp only [usfOpen] at h
  split at h
  · cases h
  · cases h
    rcases hgiven with hgiven | hgiven
    · cases hgiven
    · cases hgiven
  · next path hnorm =>
      rw [openUnified] at h
      split at h
      · cases h
      next found hfound =>
      obtain ⟨hroot, hclosed⟩ := openRootOf_given hfound
      obtain ⟨st, root, evs', fileName⟩ := found
      simp only [Except.ok.injEq, openBehind] at h hroot hclosed
      split at h
      · -- no root has been opened
        cases h
        rcases hgiven with hgiven | hgiven
        · exact absurd hgiven (hclosed handle)
        · cases hgiven
      · split at h
        · -- a file behind the root, which is closed in either case
          next r name =>
            split at h
            · next f hfile =>
                cases h
                rcases hgiven with hgiven | hgiven
                · simp only [List.mem_append, hclosed handle, List.mem_cons, reduceCtorEq,
                    FileEvent.closed.injEq, List.not_mem_nil, or_false, false_or] at hgiven
                  exact Or.inl (hroot handle (by rw [hgiven]))
                · cases hgiven
                  exact Or.inr ⟨r, name, hfile⟩
            · cases h
              rcases hgiven with hgiven | hgiven
              · simp only [List.mem_append, hclosed handle, List.mem_cons,
                  FileEvent.closed.injEq, List.not_mem_nil, or_false, false_or] at hgiven
                exact Or.inl (hroot handle (by rw [hgiven]))
              · cases hgiven
        · -- the root itself is returned
          cases h
          rcases hgiven with hgiven | hgiven
          · exact absurd hgiven (hclosed handle)
          · exact Or.inl (hroot handle hgiven)

/-! ## A machine with one volume -/

/-- One partition of an NVMe namespace, named `HD0b:`. -/
def nvmeFirmware : Firmware where
  platform := plainPlatform
  devicePathCompare a b := if a = b then 0 else 1
  stack _ := []
  frames _ _ := []
  handles := [nvmeVolume 7 1 1]
  volumeLabel _ := .ok (text ['D', 'A', 'T', 'A'])
  shell := none

def nvmeData : UsfPrivateData := usfInit [getHIDevicePath (nvmePartition 1 1)]

/-- Its root is handle 7; every name opens handle 9, a directory. -/
def directoryFiles : Files where
  openFile _ _ _ _ := .ok 9
  getInfo _ := some 0x10
  getSize _ := .ok 0

end EfiLvgl.Usf
