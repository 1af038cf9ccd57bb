import EfiLvgl.Usf.Open

/-!
# EfiLvgl.Usf.RoundTrip — file paths to device paths and back

`UsfGetDevicePathFromFilePath` finds the handle of a mapping name and appends a
file-path node to its device path; `UsfGetFilePathFromDevicePath` names the whole
device path, file-path node included, and prints what is left of it.

1. `name_extend`: file-path nodes are neither hardware nor serialised, so a name does
   not change when they are appended;
2. `file_path_round_trip_iff`: a path in normal form comes back, unless a handle without
   a device path is in front of that of the volume.
-/

namespace EfiLvgl.Usf

open EfiLvgl.Join EfiLvgl.Mapping

/-! ## The two functions -/

/-- `FileDevicePath`, `LocateDevicePath` for the simple file system protocol, with the
path that remains, and `ConvertDevicePathToText`. -/
structure DevicePathServices where
  fileDevicePath : Handle → Text → DevicePath
  locateDevicePath : DevicePath → Except EfiStatus DevicePath
  convertDevicePathToText : DevicePath → Text

/-- `UsfGetDevicePathFromFilePath`. -/
def usfGetDevicePathFromFilePath (fw : Firmware) (lib : DevicePathServices) (s : UsfPrivateData)
    (path : Option Text) : Except Stop (Option DevicePath) :=
  match path with
  | none => .ok none
  | some path =>
      match usfFilePathNorm fw s path true with
      | .error stop => .error stop
      | .ok (.error _) => .ok none
      | .ok (.ok newPath) =>
          match splitDrive newPath with
          | .error stop => .error stop
          | .ok (mapName, filePath) =>
              match getHandleFromMapName fw.platform fw.devicePathCompare fw.frames
                s.fileSystemTable fw.handles mapName with
              | .error stop => .error stop
              | .ok none => .ok none
              | .ok (some handle) =>
                  .ok (some (lib.fileDevicePath handle (filePath.getD [pathSepChar])))

/-- `UsfGetFilePathFromDevicePath`. -/
def usfGetFilePathFromDevicePath (fw : Firmware) (lib : DevicePathServices) (s : UsfPrivateData)
    (devicePath : Option DevicePath) : Option Text :=
  match devicePath with
  | none => none
  | some devicePath =>
      match lib.locateDevicePath devicePath with
      | .error _ => none
      | .ok remainingPath =>
          match getConsistMappingName fw.platform fw.devicePathCompare fw.stack devicePath
            s.fileSystemTable with
          | none => none
          | some mapping =>
              let filePath :=
                if remainingPath = [] then none
                else some (lib.convertDevicePathToText remainingPath)
              let filePathLength := (filePath.getD []).length
              let length := rootTypeInternal.length + mapping.length + filePathLength + 3
              let cat (dst src : Text) : Text :=
                match strnCatS dst length src src.length with
                | .ok dst => dst
                | .error _ => dst
              some (pathnCat (cat (cat [] rootTypeInternal) mapping) filePath filePathLength).1

/-! ## Names and file-path nodes -/

/-- `MEDIA_DEVICE_PATH`, `MEDIA_FILEPATH_DP`. -/
def IsFilePathNode (node : DevicePathNode) : Prop := node.type = 0x04 ∧ node.subType = 0x04

theorem IsFilePathNode.serialiser {node : DevicePathNode} (h : IsFilePathNode node) :
    node.serialiser = .default := by
  rw [DevicePathNode.serialiser, h.1, h.2]
  rfl

theorem IsFilePathNode.not_hi {node : DevicePathNode} (h : IsFilePathNode node) :
    isHIDevicePathNode node = false := by
  rw [isHIDevicePathNode, h.1]
  rfl

/-- The serialisers look at the whole path only for the interface of a USB device. -/
theorem mtdAfter_congr {platform : Platform} {path path' : DevicePath}
    (husb : platform.usbInterface path' = platform.usbInterface path) (node : DevicePathNode)
    (mtd : MtdType) (serialiser : Serialiser) :
    serialiser.mtdAfter platform path' node mtd = serialiser.mtdAfter platform path node mtd := by
  cases serialiser with
  | usb => simp only [Serialiser.mtdAfter, husb]
  | _ => rfl

section Extend

variable {nodes : DevicePath} (hnodes : ∀ node ∈ nodes, IsFilePathNode node)
include hnodes

theorem hiNodes_filePath (k : Nat) : hiNodes k nodes = [] := by
  induction nodes generalizing k with
  | nil => rfl
  | cons node nodes ih =>
      have hhi := (hnodes node (by simp)).not_hi
      rw [hiNodes, hhi]
      exact ih (fun n hn => hnodes n (by simp [hn])) (k + 1)

theorem hiNodes_extend (path : DevicePath) (k : Nat) :
    hiNodes k (path ++ nodes) = hiNodes k path := by
  induction path generalizing k with
  | nil => rw [List.nil_append, hiNodes_filePath hnodes, hiNodes]
  | cons node path ih => rw [List.cons_append, hiNodes, hiNodes, ih, ih]

theorem pathItems_filePath (platform : Platform) (stack : Stack) (i : Nat) :
    pathItems platform stack i nodes = [] := by
  induction nodes generalizing i with
  | nil => rfl
  | cons node nodes ih =>
      rw [pathItems, (hnodes node (by simp)).serialiser,
        ih (fun n hn => hnodes n (by simp [hn])) (i + 1)]
      rfl

theorem pathMtd_filePath (platform : Platform) (path : DevicePath) (mtd : MtdType) :
    pathMtd platform path nodes mtd = mtd := by
  induction nodes with
  | nil => rfl
  | cons node nodes ih =>
      have hdefault := (hnodes node (by simp)).serialiser
      have hrest := ih (fun n hn => hnodes n (by simp [hn]))
      rw [pathMtd, List.foldl_cons, hdefault]
      exact hrest

/-- The name of a path with file-path nodes behind it. -/
theorem name_extend {platform : Platform} (devicePathCompare : DevicePath → DevicePath → Int)
    (stack : Stack) {path : DevicePath} (table : List DevicePath)
    (husb : platform.usbInterface (path ++ nodes) = platform.usbInterface path) :
    getConsistMappingName platform devicePathCompare stack (path ++ nodes) table =
      getConsistMappingName platform devicePathCompare stack path table := by
  have hhi : getHIDevicePath (path ++ nodes) = getHIDevicePath path := hiNodes_extend hnodes path 0
  have hfails : (path ++ nodes).any (lookupFails platform (path ++ nodes)) =
      path.any (lookupFails platform path) := by
    have hrest : nodes.any (lookupFails platform (path ++ nodes)) = false := by
      rw [List.any_eq_false]
      intro node hnode
      simp [lookupFails, (hnodes node hnode).serialiser]
    have hsame : lookupFails platform (path ++ nodes) = lookupFails platform path := by
      funext node
      simp only [lookupFails, husb]
    rw [List.any_append, hrest, Bool.or_false, hsame]
  have hmtd : pathMtd platform (path ++ nodes) (path ++ nodes) .unknown =
      pathMtd platform path path .unknown := by
    have hfun : (fun mtd (node : DevicePathNode) =>
        node.serialiser.mtdAfter platform (path ++ nodes) node mtd) =
        fun mtd node => node.serialiser.mtdAfter platform path node mtd := by
      funext mtd node
      exact mtdAfter_congr husb node mtd _
    have hrest := pathMtd_filePath hnodes platform path (pathMtd platform path path .unknown)
    rw [pathMtd, hfun, List.foldl_append]
    exact hrest
  have hcsd : csdText platform stack (path ++ nodes) = csdText platform stack path := by
    rw [csdText, pathItems_append, pathItems_filePath hnodes, List.append_nil, csdText]
  rw [getConsistMappingName_eq, getConsistMappingName_eq, hhi, hfails, hmtd, hcsd]

end Extend

/-! ## There and back -/

/-- What the library does with one file name: the node is appended to the path of the
handle, found behind it again, and printed as the name. -/
structure FileNodes (lib : DevicePathServices) (handle : Handle) (path : DevicePath) (name : Text)
    (nodes : DevicePath) : Prop where
  filePath : ∀ node ∈ nodes, IsFilePathNode node
  ne_nil : nodes ≠ []
  append : lib.fileDevicePath handle name = path ++ nodes
  strip : lib.locateDevicePath (path ++ nodes) = .ok nodes
  print : lib.convertDevicePathToText nodes = name

/-- A present volume whose name shows no stack and belongs to it alone. `pre` are the handles that
`LocateHandleBuffer` returns in front of it. -/
structure NamedVolume (fw : Firmware) (s : UsfPrivateData) (pre : List Handle) (handle : Handle)
    (post : List Handle) (path : DevicePath) (name : Text) : Prop where
  order : sfsHandles fw.handles = pre ++ handle :: post
  first : handle ∉ pre
  devicePath : handle.devicePath = some path
  plain : ∀ node ∈ path, node.serialiser.readsStack = false
  named : getConsistMappingName fw.platform fw.devicePathCompare fw.stack path s.fileSystemTable =
    some name
  alone : ∀ h ∈ sfsHandles fw.handles, ∀ stack,
    h.name fw.platform fw.devicePathCompare stack s.fileSystemTable = .ok (some name) → h = handle

/-- `LocateDevicePath` for the USB interface goes by the longest path that a handle
carries; no such path has a file-path node. -/
def UsbIgnoresFileNodes (platform : Platform) (path : DevicePath) : Prop :=
  ∀ nodes : DevicePath, (∀ node ∈ nodes, IsFilePathNode node) →
    platform.usbInterface (path ++ nodes) = platform.usbInterface path

theorem name_of_plain {path : DevicePath} (h : ∀ node ∈ path, node.serialiser.readsStack = false)
    (platform : Platform) (devicePathCompare : DevicePath → DevicePath → Int) (stack stack' : Stack)
    (table : List DevicePath) :
    getConsistMappingName platform devicePathCompare stack path table =
      getConsistMappingName platform devicePathCompare stack' path table := by
  have hcsd : csdText platform stack path = csdText platform stack' path := by
    rw [csdText, csdText, pathItems_of_not_readsStack h platform stack stack']
  rw [getConsistMappingName_eq, getConsistMappingName_eq, hcsd]

/-- Handles that have a device path, and another name, are passed over. -/
theorem findMapName_append {name : Nat → Handle → Except Stop (Option Text)} {mapName : Text}
    {pre : List Handle} (hother : ∀ u ∈ pre, ∀ i, ∃ found, name i u = .ok found ∧
      found ≠ some mapName) (rest : List Handle) (i : Nat) :
    findMapName name mapName i (pre ++ rest) = findMapName name mapName (i + pre.length) rest := by
  induction pre generalizing i with
  | nil => rfl
  | cons u pre ih =>
      obtain ⟨found, hname, hne⟩ := hother u (by simp) i
      rw [List.cons_append, findMapName]
      simp only [hname, if_neg hne]
      rw [ih (fun w hw => hother w (by simp [hw])) (i + 1), List.length_cons,
        Nat.add_comm pre.length 1, ← Nat.add_assoc]

theorem findMapName_pathless {platform : Platform}
    {devicePathCompare : DevicePath → DevicePath → Int} {frames : Nat → Stack}
    {table : List DevicePath} {mapName : Text} {pre : List Handle}
    (hother : ∀ u ∈ pre, ∀ i,
      u.name platform devicePathCompare (frames i) table ≠ .ok (some mapName))
    (hpathless : ∃ u ∈ pre, u.devicePath = none) (rest : List Handle) (i : Nat) :
    findMapName (fun i => Handle.name platform devicePathCompare (frames i) table) mapName i
      (pre ++ rest) = .error .assertion := by
  induction pre generalizing i with
  | nil =>
      obtain ⟨u, hu, -⟩ := hpathless
      cases hu
  | cons u pre ih =>
      rw [List.cons_append, findMapName]
      cases hpath : u.devicePath with
      | none => simp only [name_none hpath]
      | some path =>
          have hname := name_some hpath platform devicePathCompare (frames i) table
          have hlater : ∃ w ∈ pre, w.devicePath = none := by
            obtain ⟨w, hw, hnone⟩ := hpathless
            rcases List.mem_cons.mp hw with rfl | hw
            · rw [hpath] at hnone
              cases hnone
            · exact ⟨w, hw, hnone⟩
          have hne : getConsistMappingName platform devicePathCompare (frames i) path table ≠
              some mapName := fun heq => hother u (by simp) i (hname.trans (congrArg _ heq))
          simp only [hname, if_neg hne]
          exact ih (fun w hw => hother w (by simp [hw])) hlater (i + 1)

/-- The name does not go with the stack. -/
theorem name_frame {fw : Firmware} {s : UsfPrivateData} {pre post : List Handle} {handle : Handle}
    {path : DevicePath} {name : Text} (h : NamedVolume fw s pre handle post path name)
    (stack : Stack) :
    handle.name fw.platform fw.devicePathCompare stack s.fileSystemTable = .ok (some name) := by
  rw [name_some h.devicePath,
    name_of_plain h.plain fw.platform fw.devicePathCompare stack fw.stack, h.named]

/-- The handle of the name is found, if those in front of it have device paths. -/
theorem handle_of_name {fw : Firmware} {s : UsfPrivateData} {pre post : List Handle}
    {handle : Handle} {path : DevicePath} {name : Text}
    (h : NamedVolume fw s pre handle post path name) (hpaths : ∀ u ∈ pre, u.devicePath ≠ none) :
    getHandleFromMapName fw.platform fw.devicePathCompare fw.frames s.fileSystemTable fw.handles
      (some name) = .ok (some handle) := by
  rw [getHandleFromMapName, h.order, findMapName_append]
  · rw [findMapName]
    simp only [name_frame h, if_true]
  · intro u hu i
    obtain ⟨p, hp⟩ := Option.ne_none_iff_exists'.mp (hpaths u hu)
    refine ⟨_, name_some hp _ _ _ _, ?_⟩
    intro hname
    have hmem : u ∈ sfsHandles fw.handles := by
      rw [h.order]
      simp [hu]
    have heq := h.alone u hmem (fw.frames i) ((name_some hp _ _ _ _).trans (congrArg _ hname))
    exact h.first (heq ▸ hu)

/-- The first of them that has none is not gone past. -/
theorem handle_of_name_stops {fw : Firmware} {s : UsfPrivateData} {pre post : List Handle}
    {handle : Handle} {path : DevicePath} {name : Text}
    (h : NamedVolume fw s pre handle post path name) (hpathless : ∃ u ∈ pre, u.devicePath = none) :
    getHandleFromMapName fw.platform fw.devicePathCompare fw.frames s.fileSystemTable fw.handles
      (some name) = .error .assertion := by
  have hother : ∀ u ∈ pre, ∀ i,
      u.name fw.platform fw.devicePathCompare (fw.frames i) s.fileSystemTable ≠ .ok (some name) := by
    intro u hu i hname
    have hmem : u ∈ sfsHandles fw.handles := by
      rw [h.order]
      simp [hu]
    exact h.first (h.alone u hmem (fw.frames i) hname ▸ hu)
  rw [getHandleFromMapName, h.order]
  exact findMapName_pathless hother hpathless (handle :: post) 0

theorem normalPath_append (name rest rest' : Text) :
    normalPath name rest ++ rest' = normalPath name (rest ++ rest') := by
  simp [normalPath]

theorem norm_normalPath {name rest : Text} (hn : NormalForm name rest) (fw : Firmware)
    (s : UsfPrivateData) (convert : Bool) :
    usfFilePathNorm fw s (normalPath name rest) convert = .ok (.ok (normalPath name rest)) := by
  have hinternal : rootTypeInternal <+: normalPath name rest := List.prefix_append _ _
  have hstart : pathPrefix <+: rootTypeInternal := by decide
  have hslash : ch '/' ∉ normalPath name rest := by
    rw [normalPath, List.mem_append, List.mem_append, List.mem_cons]
    rintro (h | h | h | h)
    · exact absurd h (by decide)
    · exact hn.nameSlash h
    · exact absurd h (by decide)
    · exact hn.restSlash h
  exact norm_unified (hstart.trans hinternal) hslash (fun _ => Or.inl hinternal.isInfix) fw s

/-- The buffer takes the root and the mapping, and `PathnCat` joins the rest to them. -/
theorem pathnCat_mappingRoot {name filePath : Text} (hrooted : filePath.head? = some pathSepChar) :
    pathnCat (mappingRoot name) (some filePath) filePath.length =
      (normalPath name filePath, true) := by
  rw [pathnCat_eq (mappingRoot_ne_nil name) filePath (Nat.le_refl _),
    join_mappingRoot (Or.inr hrooted)]

/-- A path in normal form comes back as it was, and the root of a volume with its
separator; the volume has one name, whatever file-path nodes are behind its path. -/
structure RoundTrip (fw : Firmware) (lib : DevicePathServices) (s : UsfPrivateData)
    (path : DevicePath) (name rest : Text) : Prop where
  back : ∃ devicePath,
    usfGetDevicePathFromFilePath fw lib s (some (normalPath name rest)) = .ok (some devicePath) ∧
    usfGetFilePathFromDevicePath fw lib s (some devicePath) =
      some (if rest = [] then normalPath name rest ++ [pathSepChar] else normalPath name rest)
  oneName : ∀ nodes : DevicePath, (∀ node ∈ nodes, IsFilePathNode node) → ∀ stack stack',
    getConsistMappingName fw.platform fw.devicePathCompare stack (path ++ nodes)
        s.fileSystemTable =
      getConsistMappingName fw.platform fw.devicePathCompare stack' path s.fileSystemTable

theorem round_trip {fw : Firmware} {lib : DevicePathServices} {s : UsfPrivateData}
    {pre post : List Handle} {handle : Handle} {path nodes : DevicePath} {name rest : Text}
    (hn : NormalForm name rest)
    (hvolume : NamedVolume fw s pre handle post path (name ++ [driveChar]))
    (husb : UsbIgnoresFileNodes fw.platform path)
    (hfile : FileNodes lib handle path (if rest = [] then [pathSepChar] else rest) nodes)
    (hpaths : ∀ u ∈ pre, u.devicePath ≠ none) : RoundTrip fw lib s path name rest := by
  have hextend : ∀ nodes' : DevicePath, (∀ node ∈ nodes', IsFilePathNode node) →
      ∀ stack stack', getConsistMappingName fw.platform fw.devicePathCompare stack
          (path ++ nodes') s.fileSystemTable =
        getConsistMappingName fw.platform fw.devicePathCompare stack' path s.fileSystemTable := by
    intro nodes' hnodes' stack stack'
    rw [name_extend hnodes' fw.devicePathCompare stack s.fileSystemTable (husb nodes' hnodes')]
    exact name_of_plain hvolume.plain fw.platform fw.devicePathCompare stack stack' s.fileSystemTable
  refine ⟨⟨path ++ nodes, ?_, ?_⟩, hextend⟩
  · -- the path is its own normal form, and its drive is the name
    have hnorm : usfFilePathNorm fw s (normalPath name rest) true =
        .ok (.ok (normalPath name rest)) := norm_normalPath hn fw s true
    have hleft : (if rest = [] then none else some rest).getD [pathSepChar] =
        if rest = [] then [pathSepChar] else rest := by
      split
      · rfl
      · rfl
    simp only [usfGetDevicePathFromFilePath, hnorm, splitDrive_normalPath hn.nameDrive,
      handle_of_name hvolume hpaths, hleft, hfile.append]
  -- the path of the device is named, and the mapping is put before the file's own path
  · have hname := (hextend nodes hfile.filePath fw.stack fw.stack).trans hvolume.named
    have hroot : ∀ n, rootTypeInternal.length + (name ++ [driveChar]).length + n + 3 =
        rootTypeInternal.length + (name.length + n + 4) := by
      intro n
      simp
      omega
    have hinternal : ∀ n, strnCatS [] (rootTypeInternal.length + (name.length + n + 4))
        rootTypeInternal rootTypeInternal.length = .ok rootTypeInternal := by
      intro n
      rw [strnCatS_of_lt (by simp), List.nil_append, List.take_length]
    have hmapping : ∀ n, strnCatS rootTypeInternal
        (rootTypeInternal.length + (name.length + n + 4)) (name ++ [driveChar])
        (name ++ [driveChar]).length = .ok (mappingRoot name) := by
      intro n
      rw [strnCatS_of_lt (by simp; omega), List.take_length, mappingRoot]
    have hrooted : (if rest = [] then [pathSepChar] else rest).head? = some pathSepChar := by
      split
      · rfl
      · next hne => exact hn.rooted.resolve_left hne
    simp only [usfGetFilePathFromDevicePath, hfile.strip, hname, if_neg hfile.ne_nil, hfile.print,
      Option.getD_some, hroot, hinternal, hmapping, pathnCat_mappingRoot hrooted]
    split
    · next hnil => rw [hnil, normalPath_append, List.nil_append]
    · rfl

/-- The round trip, where it ends: it is made exactly if no handle without a device path is in front
of that of the volume. -/
theorem file_path_round_trip_iff {fw : Firmware} {lib : DevicePathServices} {s : UsfPrivateData}
    {pre post : List Handle} {handle : Handle} {path nodes : DevicePath} {name rest : Text}
    (hn : NormalForm name rest)
    (hvolume : NamedVolume fw s pre handle post path (name ++ [driveChar]))
    (husb : UsbIgnoresFileNodes fw.platform path)
    (hfile : FileNodes lib handle path (if rest = [] then [pathSepChar] else rest) nodes) :
    RoundTrip fw lib s path name rest ↔ ∀ u ∈ pre, u.devicePath ≠ none := by
  refine ⟨?_, round_trip hn hvolume husb hfile⟩
  intro h
  by_contra hpaths
  have hpathless : ∃ u ∈ pre, u.devicePath = none := by
    push Not at hpaths
    exact hpaths
  obtain ⟨devicePath, hforth, -⟩ := h.back
  simp only [usfGetDevicePathFromFilePath, norm_normalPath hn fw s true,
    splitDrive_normalPath hn.nameDrive, handle_of_name_stops hvolume hpathless] at hforth
  cases hforth

/-- The node of a file name: its characters, the lower byte first. -/
def fileNode (name : Text) : DevicePathNode :=
  ⟨0x04, 0x04, name.flatMap fun c => [UInt8.ofNat c.toNat, UInt8.ofNat (c.toNat / 256)]⟩

/-- The text of a list of pairs of bytes. -/
def fileText : List UInt8 → Text
  | lower :: upper :: bytes => UInt16.ofNat (lower.toNat + 256 * upper.toNat) :: fileText bytes
  | _ => []

/-- Volumes have no file-path node, so that what remains starts with the first one. -/
def fileServices : DevicePathServices where
  fileDevicePath handle name := handle.devicePath.getD [] ++ [fileNode name]
  locateDevicePath path := .ok (path.dropWhile fun node => (node.type, node.subType) ≠ (0x04, 0x04))
  convertDevicePathToText path := path.flatMap fun node => fileText node.data

/-- A file system without a device path. -/
def pathlessVolume : Handle := ⟨8, none, false, true, .ok 8⟩

/-- The volume, and one without a device path in front of it or behind it. -/
def nvmeBetween (pre post : List Handle) : Firmware :=
  { nvmeFirmware with handles := pre ++ nvmeVolume 7 1 1 :: post }

/-- `\\a.py` on it: the hypotheses of the round trip. -/
theorem nvme_file {pre post : List Handle} (hpre : ∀ u ∈ pre, u = pathlessVolume)
    (hpost : ∀ u ∈ post, u = pathlessVolume) :
    NormalForm (text ['H', 'D', '0', 'b']) (text ['\\', 'a', '.', 'p', 'y']) ∧
    NamedVolume (nvmeBetween pre post) nvmeData pre (nvmeVolume 7 1 1) post (nvmePartition 1 1)
      (text ['H', 'D', '0', 'b'] ++ [driveChar]) ∧
    UsbIgnoresFileNodes (nvmeBetween pre post).platform (nvmePartition 1 1) ∧
    FileNodes fileServices (nvmeVolume 7 1 1) (nvmePartition 1 1)
      (if text ['\\', 'a', '.', 'p', 'y'] = [] then [pathSepChar]
        else text ['\\', 'a', '.', 'p', 'y']) [fileNode (text ['\\', 'a', '.', 'p', 'y'])] := by
  have hsfs : ∀ {handles : List Handle}, (∀ u ∈ handles, u = pathlessVolume) →
      sfsHandles handles = handles := by
    intro handles hall
    rw [sfsHandles, List.filter_eq_self]
    intro u hu
    rw [hall u hu]
    rfl
  have horder : sfsHandles (nvmeBetween pre post).handles = pre ++ nvmeVolume 7 1 1 :: post := by
    show sfsHandles (pre ++ nvmeVolume 7 1 1 :: post) = _
    rw [sfsHandles, List.filter_append, List.filter_cons_of_pos rfl]
    exact congr (congrArg _ (hsfs hpre)) (congrArg _ (hsfs hpost))
  refine ⟨⟨by decide, by decide, by decide, by decide, by decide⟩, ?_, fun _ _ => rfl, ?_⟩
  · constructor
    · exact horder
    · intro hmem
      exact absurd (congrArg Handle.id (hpre _ hmem)) (by decide)
    · rfl
    · intro node hnode
      exact ((nvmePartition_plain (by decide) (by decide)).2 node hnode).1
    · show getConsistMappingName nvmeFirmware.platform nvmeFirmware.devicePathCompare
        nvmeFirmware.stack (nvmePartition 1 1) nvmeData.fileSystemTable = _
      decide +kernel
    · intro h hmem stack hname
      rw [horder, List.mem_append, List.mem_cons] at hmem
      rcases hmem with hmem | rfl | hmem
      · rw [hpre h hmem] at hname
        cases hname
      · rfl
      · rw [hpost h hmem] at hname
        cases hname
  · constructor
    · intro node hnode
      rw [List.mem_singleton.mp hnode]
      exact ⟨rfl, rfl⟩
    · simp
    · rfl
    · rfl
    · decide +kernel

/-- A file system without a device path does no harm behind the volume. -/
theorem nvme_file_round_trip : ∃ devicePath,
    usfGetDevicePathFromFilePath (nvmeBetween [] [pathlessVolume]) fileServices nvmeData
        (some (normalPath (text ['H', 'D', '0', 'b']) (text ['\\', 'a', '.', 'p', 'y']))) =
      .ok (some devicePath) ∧
    usfGetFilePathFromDevicePath (nvmeBetween [] [pathlessVolume]) fileServices nvmeData
        (some devicePath) =
      some (normalPath (text ['H', 'D', '0', 'b']) (text ['\\', 'a', '.', 'p', 'y'])) := by
  obtain ⟨hn, hvolume, husb, hfile⟩ :=
    @nvme_file [] [pathlessVolume] (by simp) (by simp)
  exact ((file_path_round_trip_iff hn hvolume husb hfile).mpr (by simp)).back

/-- In front of it, it stops the search: not every path in normal form comes back. -/
theorem pathless_handle_asserts :
    ¬ ∀ (fw : Firmware) (lib : DevicePathServices) (s : UsfPrivateData) (pre post : List Handle)
      (handle : Handle) (path nodes : DevicePath) (name rest : Text), NormalForm name rest →
      NamedVolume fw s pre handle post path (name ++ [driveChar]) →
      UsbIgnoresFileNodes fw.platform path →
      FileNodes lib handle path (if rest = [] then [pathSepChar] else rest) nodes →
      RoundTrip fw lib s path name rest := by
  intro hclaim
  obtain ⟨hn, hvolume, husb, hfile⟩ :=
    @nvme_file [pathlessVolume] [] (by simp) (by simp)
  obtain ⟨devicePath, hforth, -⟩ := (hclaim _ _ _ _ _ _ _ _ _ _ hn hvolume husb hfile).back
  cases hforth

end EfiLvgl.Usf
