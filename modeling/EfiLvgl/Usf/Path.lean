import EfiLvgl.Lib.Join
import EfiLvgl.Lib.Search
import EfiLvgl.Usf.Data

/-!
# EfiLvgl.Usf.Path — paths and the working directory

The functions of `usf.c` that take paths apart, put them together and bring them into
the unified form `\\:` mapping name `:` rest. A text is the list of its characters
without the terminator. Pool requests are taken to be served; what the source asserts,
and a `NULL` it goes on with, is a `Stop`.

The second half has one equation for each of the helpers, in terms of `join`:
`splitDrive_eq`, `pathnCat_eq` and `unifiedPath_eq`.
-/

namespace EfiLvgl.Usf

open EfiLvgl.Search EfiLvgl.Join EfiLvgl.Mapping

/-- A string, without its terminator. -/
abbrev Text := List Char16

/-! ## `ScriptFileProtocol.h` -/

/-- `EFI_SCRIPT_FILE_PATH_SEP_CHAR`. -/
def pathSepChar : Char16 := ch '\\'

/-- `EFI_SCRIPT_FILE_DRIVE_CHAR`. -/
def driveChar : Char16 := ch ':'

/-- `EFI_SCRIPT_FILE_PATH_PREFIX`, the `Prefix` of the protocol. -/
def pathPrefix : Text := text ['\\', '\\']

/-- `EFI_SCRIPT_FILE_ROOT_TYPE_INTERNAL`. -/
def rootTypeInternal : Text := text ['\\', '\\', ':']

/-- `EFI_SCRIPT_FILE_ROOT_TYPE_LABEL`. -/
def rootTypeLabel : Text := text ['\\', '\\', 'L', 'A', 'B', 'E', 'L', ':']

/-! ## Strings -/

/-- `StrnCatS`. -/
def strnCatS (destination : Text) (destMax : Nat) (source : Text) (length : Nat) :
    Except EfiStatus Text :=
  if destination.length + (source.take length).length < destMax then
    .ok (destination ++ source.take length)
  else .error .bufferTooSmall

/-- `StrDup`; 0 means the exact copy, and of nothing there is none. -/
def strDup (src : Option Text) (maxLen : Nat) : Option Text :=
  match src with
  | none => none
  | some src =>
      let maxLen := if maxLen = 0 then src.length else maxLen
      if maxLen = 0 then none
      else
        match strnCatS [] (maxLen + 1) src maxLen with
        | .ok dest => some dest
        | .error _ => some []

/-- `SplitDrive`: `*Drive` and `*LeftPath`. -/
def splitDrive (fullPath : Text) : Except Stop (Option Text × Option Text) :=
  match strStr fullPath [driveChar] with
  | none => .error .nullPointer -- `Path - FullPath` with `Path` still `NULL`
  | some path =>
      let fullPath := path.drop 1
      match strStr fullPath [driveChar] with
      | none => .ok (none, none)
      | some path =>
          let path := path.drop 1
          let driveLength := fullPath.length - path.length
          let pathLength := path.length
          .ok (if 0 < driveLength then strDup (some fullPath) driveLength else none,
            if 0 < pathLength then strDup (some path) pathLength else none)

/-- `PathnCat`, for `Dst` not `NULL`: the buffer behind it, and whether `Dst` is returned. -/
def pathnCat (dst : Text) (src : Option Text) (maxLen : Nat) : Text × Bool :=
  match src with
  | none => (dst, true)
  | some src =>
      if maxLen = 0 ∨ src = [] then (dst, true)
      else
        let cat (dst : Text) (length : Nat) (src : Text) : Text × Bool :=
          match strnCatS dst (length + maxLen + 1) src maxLen with
          | .ok dst => (dst, true)
          | .error _ => (dst, false)
        let length := dst.length
        if dst = [] then cat dst length src
        else if dst.getLast? ≠ some pathSepChar then
          if src.head? ≠ some pathSepChar then
            match strnCatS dst (length + maxLen + 1) [pathSepChar] 1 with
            | .ok dst => cat dst (length + 1) src
            | .error _ => (dst, false)
          else cat dst length src
        else if src.head? = some pathSepChar then cat dst length src.tail
        else cat dst length src

/-! ## What the functions ask for -/

/-- `EFI_SHELL_PROTOCOL`: the current directory, which may be unset, and the device path of a path.
The Shell knows no device path for `NULL`. -/
structure ShellProtocol where
  getCurDir : Option Text
  getDevicePathFromFilePath : Option Text → Option DevicePath
  null_devicePath : getDevicePathFromFilePath none = none

/-- What the firmware and a shell answer during one call. `stack` is what the stack
holds when a mapping is named, `frames` when the volumes are gone through by name. -/
structure Firmware where
  platform : Platform
  devicePathCompare : DevicePath → DevicePath → Int
  stack : Stack
  frames : Nat → Stack
  handles : List Handle
  volumeLabel : Handle → Except EfiStatus Text
  shell : Option ShellProtocol

/-- What is done with a volume root or a file. -/
inductive FileEvent where
  | opened (file : Ptr)
  | closed (file : Ptr)
  | positioned (file : Ptr) (position : UInt64)
  | resized (file : Ptr) (size : UInt64)
  deriving DecidableEq, Repr

/-- `Root->GetInfo` for the volume label, into a buffer of that many bytes. -/
def Firmware.getVolumeLabel (fw : Firmware) (handle : Handle) (labelLength : Nat) :
    Except EfiStatus Text :=
  match fw.volumeLabel handle with
  | .ok label =>
      if 2 * (label.length + 1) ≤ labelLength then .ok label else .error .bufferTooSmall
  | .error status => .error status

/-- The loop of `GetDevicePathByLabel`. -/
def devicePathByLabelLoop (fw : Firmware) (label : Text) :
    List Handle → Option DevicePath × List FileEvent
  | [] => (none, [])
  | handle :: handles =>
      match handle.openVolume with
      | .error _ => devicePathByLabelLoop fw label handles
      | .ok root =>
          -- `ARRAY_SIZE (Buffer) - 1`
          if fw.getVolumeLabel handle 99 = .ok label then
            (handle.devicePath, [.opened root, .closed root])
          else
            let (devicePath, evs) := devicePathByLabelLoop fw label handles
            (devicePath, .opened root :: .closed root :: evs)

/-- `GetDevicePathByLabel`, with the volume roots it opens and closes. -/
def getDevicePathByLabel (fw : Firmware) (label : Text) : Option DevicePath × List FileEvent :=
  devicePathByLabelLoop fw label (sfsHandles fw.handles)

/-- `Mapping = GetConsistMappingName (DevPath, ...); ASSERT (Mapping != NULL)`. -/
def assertMapping (fw : Firmware) (s : UsfPrivateData) (devPath : Option DevicePath) :
    Except Stop Text :=
  match devPath with
  | none => .error .assertion
  | some path =>
      match getConsistMappingName fw.platform fw.devicePathCompare fw.stack path
        s.fileSystemTable with
      | none => .error .assertion
      | some mapping => .ok mapping

/-! ## `UsfFilePathNorm` -/

/-- The end of `UsfFilePathNorm`, with a mapping: the unified path. -/
def unifiedPath (mapping : Text) (curDir path : Option Text) : Text :=
  let rootLength := rootTypeInternal.length + mapping.length + 1
  let lengthOf (part : Option Text) : Nat :=
    if part.getD [] = [] then 0 else (part.getD []).length + 1
  let cat (dst : Text) (src : Text) : Text :=
    match strnCatS dst rootLength src src.length with
    | .ok dst => dst
    | .error _ => dst
  let tempPath := cat (cat [] rootTypeInternal) mapping
  let tempPath :=
    if 0 < lengthOf curDir then (pathnCat tempPath curDir (lengthOf curDir)).1 else tempPath
  if 0 < lengthOf path then (pathnCat tempPath path (lengthOf path)).1 else tempPath

/-- The slashes of MicroPython become the separators of EDK-II. -/
def unifySeparators (path : Text) : Text :=
  path.map fun c => if c = ch '/' then pathSepChar else c

/-- A relative path, once the mapping and the current directory are known. -/
def relativeTo (mapping : Option Text) (curDir : Option Text) (filePathCopy : Text) : Text :=
  let (curDir, path) :=
    if filePathCopy.head? = some pathSepChar then (none, filePathCopy.drop 1)
    else (curDir, filePathCopy)
  match mapping with
  | some mapping => unifiedPath mapping curDir (some path)
  | none => filePathCopy

/-- The branch of a relative path. -/
def normRelative (fw : Firmware) (s : UsfPrivateData) (filePathCopy : Text) :
    Except Stop (Except EfiStatus Text) :=
  match fw.shell with
  | none =>
      match s.currentDirectory with
      | none => .ok (.error .noMapping)
      | some currentDirectory =>
          match splitDrive currentDirectory with
          | .error stop => .error stop
          | .ok (mapping, curDir) => .ok (.ok (relativeTo mapping curDir filePathCopy))
  | some shell =>
      match shell.getDevicePathFromFilePath shell.getCurDir with
      | none => .ok (.error .noMapping)
      | some devPath =>
          match assertMapping fw s (some devPath) with
          | .error stop => .error stop
          | .ok mapping =>
              match shell.getCurDir with
              -- `StrStr` asserts that it is given a string
              | none => .error .assertion
              | some curDir =>
                  -- skip the leading ':' and '\'
                  let skip (path : Text) := if path[1]? = some pathSepChar then 2 else 1
                  let curDir := (strStr curDir [driveChar]).bind
                    fun path => strDup (some (path.drop (skip path))) 0
                  .ok (.ok (relativeTo (some mapping) curDir filePathCopy))

/-- The branch of a path with a drive; `tempPath` starts at its ':'. -/
def normAbsolute (fw : Firmware) (s : UsfPrivateData) (filePathCopy tempPath : Text) :
    Except Stop (Except EfiStatus Text) :=
  match fw.shell with
  | none => .ok (.error .noMapping)
  | some shell =>
      match assertMapping fw s (shell.getDevicePathFromFilePath (some filePathCopy)) with
      | .error stop => .error stop
      | .ok mapping => .ok (.ok (unifiedPath mapping none (some (tempPath.drop 1))))

/-- `Path = StrStr (Name, L"\\")`, with the name cut there and the path behind it. -/
def cutName (name : Text) : Text × Option Text :=
  match strStr name [pathSepChar] with
  | some path => (name.take (name.length - path.length), some (path.drop 1))
  | none => (name, none)

/-- The branch of a label; `tempPath` starts at its prefix. -/
def normLabel (fw : Firmware) (s : UsfPrivateData) (tempPath : Text) :
    Except Stop (Except EfiStatus Text) :=
  match strStr tempPath [driveChar] with
  | none => .error .nullPointer
  | some label =>
      let (label, path) := cutName (label.drop 1)
      match (getDevicePathByLabel fw label).1 with
      | none => .ok (.error .notFound)
      | some devPath =>
          match assertMapping fw s (some devPath) with
          | .error stop => .error stop
          | .ok mapping => .ok (.ok (unifiedPath mapping none path))

/-- `UsfFilePathNorm` from the check of the prefix on. -/
def normCopy (fw : Firmware) (s : UsfPrivateData) (filePathCopy : Text)
    (convertToDefaultForm : Bool) : Except Stop (Except EfiStatus Text) :=
  if ¬ pathPrefix <+: filePathCopy then
    match strStr filePathCopy [driveChar] with
    | none => normRelative fw s filePathCopy
    | some tempPath => normAbsolute fw s filePathCopy tempPath
  else if convertToDefaultForm ∧ strStr filePathCopy rootTypeInternal = none then
    match strStr filePathCopy rootTypeLabel with
    | some tempPath => normLabel fw s tempPath
    | none => .ok (.ok filePathCopy)
  else .ok (.ok filePathCopy)

/-- `UsfFilePathNorm`: the status, and `*FileNormPath` with `EFI_SUCCESS`. -/
def usfFilePathNorm (fw : Firmware) (s : UsfPrivateData) (filePath : Text)
    (convertToDefaultForm : Bool) : Except Stop (Except EfiStatus Text) :=
  match strDup (some filePath) filePath.length with
  | none => .error .assertion
  | some filePathCopy => normCopy fw s (unifySeparators filePathCopy) convertToDefaultForm

/-! ## The current directory -/

/-- `UsfGetCurrentDirectory`: the directory, if there is one. -/
def usfGetCurrentDirectory (fw : Firmware) (s : UsfPrivateData) :
    Except Stop (UsfPrivateData × Option Text) :=
  match fw.shell.bind ShellProtocol.getCurDir with
  | none => .ok (s, strDup s.currentDirectory 0)
  | some path =>
      match usfFilePathNorm fw s path true with
      | .error stop => .error stop
      | .ok (.error _) => .ok (s, none)
      | .ok (.ok curDir) =>
          .ok ({ s with currentDirectory := some curDir }, strDup (some curDir) 0)

/-- `UsfChangeCurrentDirectory`. What `SetCurDir` does shows in the next answers of the
shell. -/
def usfChangeCurrentDirectory (fw : Firmware) (s : UsfPrivateData) (this : Option Ptr)
    (curDir : Option Text) : Except Stop (UsfPrivateData × EfiStatus) :=
  match this, curDir with
  | some _, some curDir =>
      match usfFilePathNorm fw s curDir true with
      | .error stop => .error stop
      | .ok (.error status) => .ok (s, status)
      | .ok (.ok path) => .ok ({ s with currentDirectory := some path }, .success)
  | _, _ => .ok (s, .invalidParameter)

/-! ## The helpers as equations -/

theorem strnCatS_of_lt {destination source : Text} {destMax length : Nat}
    (h : destination.length + (source.take length).length < destMax) :
    strnCatS destination destMax source length = .ok (destination ++ source.take length) :=
  if_pos h

theorem strDup_of_pos (src : Text) {maxLen : Nat} (h : maxLen ≠ 0) :
    strDup (some src) maxLen = some (src.take maxLen) := by
  have hfits : ([] : Text).length + (src.take maxLen).length < maxLen + 1 := by
    simp
  simp [strDup, h, strnCatS_of_lt hfits]

theorem strDup_length (src : Text) :
    strDup (some src) src.length = if src = [] then none else some src := by
  cases src with
  | nil => rfl
  | cons c src => simp [strDup_of_pos]

/-- `SplitDrive` of a path with two ':': what is between the first, which is dropped,
and the second is the drive. -/
theorem splitDrive_eq {a b : Text} (ha : driveChar ∉ a) (hb : driveChar ∉ b) (c : Text) :
    splitDrive (a ++ driveChar :: (b ++ driveChar :: c)) =
      .ok (some (b ++ [driveChar]), if c = [] then none else some c) := by
  have hlen : (b ++ driveChar :: c).length - c.length = (b ++ [driveChar]).length := by
    simp
    omega
  have htake : (b ++ driveChar :: c).take (b ++ [driveChar]).length = b ++ [driveChar] := by
    rw [List.append_cons b driveChar c, List.take_left]
  have hdrive : strDup (some (b ++ driveChar :: c)) (b ++ [driveChar]).length =
      some (b ++ [driveChar]) := by
    rw [strDup_of_pos _ (by simp), htake]
  simp only [splitDrive, strStr_append_singleton ha, strStr_append_singleton hb,
    List.drop_succ_cons, List.drop_zero, hlen, hdrive, strDup_length]
  cases c with
  | nil => simp
  | cons d c => simp

theorem cutName_append {a : Text} (ha : pathSepChar ∉ a) (b : Text) :
    cutName (a ++ pathSepChar :: b) = (a, some b) := by
  simp [cutName, strStr_append_singleton ha]

theorem cutName_of_notMem {a : Text} (ha : pathSepChar ∉ a) : cutName a = (a, none) := by
  rw [cutName, strStr_singleton_none.mpr ha]

theorem cutName_subset {name label : Text} {path : Option Text}
    (h : cutName name = (label, path)) : ∀ c ∈ path.getD [], c ∈ name := by
  intro c hc
  rw [cutName] at h
  split at h
  · next rest hrest =>
      obtain ⟨-, rfl⟩ := Prod.mk.inj h
      exact (strStr_eq_some hrest).2.subset (List.mem_of_mem_drop hc)
  · obtain ⟨-, rfl⟩ := Prod.mk.inj h
    cases hc

/-- The buffer of `PathnCat` is large enough, so its two paths are joined. -/
theorem pathnCat_eq {dst : Text} (hdst : dst ≠ []) (src : Text) {maxLen : Nat}
    (hlen : src.length ≤ maxLen) :
    pathnCat dst (some src) maxLen = (join pathSepChar dst src, true) := by
  by_cases hsrc : src = []
  · simp [pathnCat, hsrc]
  have hmax : maxLen ≠ 0 := by
    have hpos : 0 < src.length := List.length_pos_iff.mpr hsrc
    omega
  have hcat : ∀ (d r : Text), d.length ≤ dst.length + 1 → r.length ≤ src.length →
      ∀ length, d.length = length → strnCatS d (length + maxLen + 1) r maxLen = .ok (d ++ r) := by
    intro d r _ hr length hd
    have htake : r.take maxLen = r := List.take_of_length_le (by omega)
    have hfits : d.length + (r.take maxLen).length < length + maxLen + 1 := by
      rw [htake]
      omega
    rw [strnCatS_of_lt hfits, htake]
  simp only [pathnCat, hmax, hsrc, hdst, or_self, if_false]
  by_cases hlast : dst.getLast? = some pathSepChar
  · obtain ⟨dst, rfl⟩ := List.getLast?_eq_some_iff.mp hlast
    by_cases hhead : src.head? = some pathSepChar
    · -- a separator on both sides: that of `Src` is skipped
      obtain ⟨src, rfl⟩ := List.head?_eq_some_iff.mp hhead
      simp only [hlast, ne_eq, not_true, if_false, hhead, if_true, List.tail_cons]
      rw [hcat _ src (by simp) (by simp) _ rfl, join_both]
      simp
    · simp only [hlast, ne_eq, not_true, if_false, hhead]
      rw [hcat _ src (by simp) (by simp) _ rfl, join_closed dst hhead]
      simp
  · by_cases hhead : src.head? = some pathSepChar
    · obtain ⟨src, rfl⟩ := List.head?_eq_some_iff.mp hhead
      simp only [hlast, ne_eq, not_false_iff, if_true, hhead, not_true, if_false]
      rw [hcat _ _ (by simp) (by simp) _ rfl, join_rooted hlast]
    · -- no separator on either side: one is written first
      have hsep : strnCatS dst (dst.length + maxLen + 1) [pathSepChar] 1 =
          .ok (dst ++ [pathSepChar]) := by
        have hfits : dst.length + (([pathSepChar] : Text).take 1).length <
            dst.length + maxLen + 1 := by
          simp
          omega
        exact strnCatS_of_lt hfits
      simp only [hlast, ne_eq, not_false_iff, if_true, hhead, hsep]
      rw [hcat _ src (by simp) (by simp) _ (by simp), join_plain hdst hsrc hlast hhead]
      simp

/-- The unified path is the root, the directory and the path, joined. -/
theorem unifiedPath_eq (mapping : Text) (curDir path : Option Text) :
    unifiedPath mapping curDir path =
      join pathSepChar (join pathSepChar (rootTypeInternal ++ mapping) (curDir.getD []))
        (path.getD []) := by
  have hroot : strnCatS [] (rootTypeInternal.length + mapping.length + 1) rootTypeInternal
      rootTypeInternal.length = .ok rootTypeInternal := by
    rw [strnCatS_of_lt (by simp)]
    simp
  have hmapping : strnCatS rootTypeInternal (rootTypeInternal.length + mapping.length + 1) mapping
      mapping.length = .ok (rootTypeInternal ++ mapping) := by
    rw [strnCatS_of_lt (by simp)]
    simp
  have hne : rootTypeInternal ++ mapping ≠ [] := by simp [rootTypeInternal, text]
  -- a part that is there is joined, one that is not changes nothing
  have hpart : ∀ (dst : Text), dst ≠ [] → ∀ part : Option Text,
      (if 0 < (if part.getD [] = [] then 0 else (part.getD []).length + 1) then
        (pathnCat dst part (if part.getD [] = [] then 0 else (part.getD []).length + 1)).1
      else dst) = join pathSepChar dst (part.getD []) := by
    intro dst hdst part
    cases part with
    | none => simp
    | some part =>
        by_cases hnil : part = []
        · simp [hnil]
        · simp only [Option.getD_some, hnil, if_false, Nat.succ_pos, if_true]
          rw [pathnCat_eq hdst part (by omega)]
  have hjoin : join pathSepChar (rootTypeInternal ++ mapping) (curDir.getD []) ≠ [] := by
    by_cases hcur : curDir.getD [] = []
    · rw [hcur, join_nil]
      exact hne
    · exact join_ne_nil hcur
  simp only [unifiedPath, hroot, hmapping, hpart _ hne, hpart _ hjoin]

end EfiLvgl.Usf
