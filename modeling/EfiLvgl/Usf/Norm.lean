import EfiLvgl.Mapping.Stack
import EfiLvgl.Usf.Open

/-!
# EfiLvgl.Usf.Norm — where `UsfFilePathNorm` does not return

Three branches of `UsfFilePathNorm` ask for the mapping name of a device path, and assert that
there is one. There is none for a volume that came after start-up, and in the branch of a path with
a drive the device path can be `NULL`, because the shell does not know the drive. `norm_returns_iff`
says when each branch returns.
-/

namespace EfiLvgl.Usf

open EfiLvgl.Search EfiLvgl.Mapping

/-- The volume of a device path has a mapping name. -/
def Mapped (fw : Firmware) (s : UsfPrivateData) (path : DevicePath) : Prop :=
  NameMade fw.platform fw.devicePathCompare path s.fileSystemTable

/-- The device path of the shell's current directory. -/
def ShellProtocol.curDirDevice (shell : ShellProtocol) : Option DevicePath :=
  shell.getDevicePathFromFilePath shell.getCurDir

/-- The label in a path that starts with the prefix for labels. -/
def labelOf (tempPath : Text) : Text :=
  (cutName (((strStr tempPath [driveChar]).getD []).drop 1)).1

/-- Every volume that a branch asks for can be named. The branches are those of `UsfFilePathNorm`,
on the path with its separators unified. -/
structure Resolvable (fw : Firmware) (s : UsfPrivateData) (path : Text)
    (convertToDefaultForm : Bool) : Prop where
  /-- relative, without a shell -/
  directory : ¬ pathPrefix <+: path → driveChar ∉ path → fw.shell = none →
    ∀ dir, s.currentDirectory = some dir → driveChar ∈ dir
  /-- relative -/
  shellDirectory : ¬ pathPrefix <+: path → driveChar ∉ path → ∀ shell, fw.shell = some shell →
    ∀ device, shell.curDirDevice = some device → Mapped fw s device
  /-- with a drive -/
  drive : ¬ pathPrefix <+: path → driveChar ∈ path → ∀ shell, fw.shell = some shell →
    ∃ device, shell.getDevicePathFromFilePath (some path) = some device ∧ Mapped fw s device
  /-- with a label -/
  label : pathPrefix <+: path → convertToDefaultForm = true →
    strStr path rootTypeInternal = none → ∀ tempPath, strStr path rootTypeLabel = some tempPath →
    ∀ device, (getDevicePathByLabel fw (labelOf tempPath)).1 = some device → Mapped fw s device

/-- The function returns, with a path or with an error status. -/
def NormReturns (fw : Firmware) (s : UsfPrivateData) (filePath : Text)
    (convertToDefaultForm : Bool) : Prop :=
  ∃ r, usfFilePathNorm fw s filePath convertToDefaultForm = .ok r

theorem ShellProtocol.getCurDir_of_device (shell : ShellProtocol) {device : DevicePath}
    (h : shell.curDirDevice = some device) : ∃ dir, shell.getCurDir = some dir := by
  rw [curDirDevice] at h
  cases hdir : shell.getCurDir with
  | none =>
      rw [hdir, shell.null_devicePath] at h
      cases h
  | some dir => exact ⟨dir, rfl⟩

section Branches

variable (fw : Firmware) (s : UsfPrivateData)

/-- The assertion holds for a device path whose volume has a name. -/
theorem assertMapping_cases (devPath : Option DevicePath) :
    (∃ device mapping, devPath = some device ∧ Mapped fw s device ∧
      assertMapping fw s devPath = .ok mapping) ∨
    (∀ device, devPath = some device → ¬ Mapped fw s device) ∧
      assertMapping fw s devPath = .error .assertion := by
  cases devPath with
  | none => exact .inr ⟨fun _ h => (nomatch h), rfl⟩
  | some device =>
      by_cases hmapped : Mapped fw s device
      · rcases name_of_nameMade hmapped with ⟨start, hname⟩
        have hassert : assertMapping fw s (some device) =
            .ok (start ++ ((csdText fw.platform fw.stack device).take 2047 ++ text [':'])) := by
          rw [assertMapping]
          simp only [hname]
        exact .inl ⟨device, _, rfl, hmapped, hassert⟩
      · refine .inr ⟨?_, ?_⟩
        · rintro _ ⟨⟩
          exact hmapped
        · rw [assertMapping]
          simp only [name_of_not_nameMade hmapped]

theorem splitDrive_returns (path : Text) :
    (∃ r, splitDrive path = .ok r) ↔ driveChar ∈ path := by
  unfold splitDrive
  cases hfirst : strStr path [driveChar] with
  | none =>
      rw [strStr_singleton_none] at hfirst
      simp [hfirst]
  | some rest =>
      have hmem : driveChar ∈ path := by
        by_contra hnot
        rw [strStr_singleton_none.mpr hnot] at hfirst
        cases hfirst
      dsimp only
      split
      · exact ⟨fun _ => hmem, fun _ => ⟨_, rfl⟩⟩
      · exact ⟨fun _ => hmem, fun _ => ⟨_, rfl⟩⟩

theorem normRelative_returns (path : Text) :
    (∃ r, normRelative fw s path = .ok r) ↔
      (fw.shell = none → ∀ dir, s.currentDirectory = some dir → driveChar ∈ dir) ∧
      ∀ shell, fw.shell = some shell → ∀ device, shell.curDirDevice = some device →
        Mapped fw s device := by
  unfold normRelative
  cases hshell : fw.shell with
  | none =>
      cases hdir : s.currentDirectory with
      | none => simp
      | some dir =>
          dsimp only
          have hsplit := splitDrive_returns dir
          cases hr : splitDrive dir with
          | error stop => simpa [hr] using hsplit
          | ok r => simpa [hr] using hsplit
  | some shell =>
      dsimp only
      have hdevice : shell.getDevicePathFromFilePath shell.getCurDir = shell.curDirDevice := rfl
      rw [hdevice]
      cases hcur : shell.curDirDevice with
      | none => simp [hcur]
      | some device =>
          -- the Shell has a current directory: it knows no device path for `NULL`
          rcases shell.getCurDir_of_device hcur with ⟨dir, hdir⟩
          rcases assertMapping_cases fw s (some device) with
            ⟨_, mapping, ⟨⟩, hmapped, hassert⟩ | ⟨hnot, hassert⟩
          · simp [hassert, hcur, hmapped, hdir]
          · simp [hassert, hcur, hnot device rfl]

theorem normAbsolute_returns (path tempPath : Text) :
    (∃ r, normAbsolute fw s path tempPath = .ok r) ↔
      ∀ shell, fw.shell = some shell →
        ∃ device, shell.getDevicePathFromFilePath (some path) = some device ∧ Mapped fw s device := by
  unfold normAbsolute
  cases hshell : fw.shell with
  | none => simp
  | some shell =>
      dsimp only
      rcases assertMapping_cases fw s (shell.getDevicePathFromFilePath (some path)) with
        ⟨device, mapping, hdevice, hmapped, hassert⟩ | ⟨hnot, hassert⟩
      · rw [hassert]
        constructor
        · rintro - _ ⟨⟩
          exact ⟨device, hdevice, hmapped⟩
        · exact fun _ => ⟨_, rfl⟩
      · rw [hassert]
        constructor
        · rintro ⟨r, hr⟩
          cases hr
        · intro h
          rcases h shell rfl with ⟨device, hdevice, hmapped⟩
          exact absurd hmapped (hnot device hdevice)

/-- The prefix for labels has a ':'. -/
theorem normLabel_returns {path tempPath : Text} (h : strStr path rootTypeLabel = some tempPath) :
    (∃ r, normLabel fw s tempPath = .ok r) ↔
      ∀ device, (getDevicePathByLabel fw (labelOf tempPath)).1 = some device →
        Mapped fw s device := by
  have hdrive : driveChar ∈ tempPath := (strStr_eq_some h).1.subset (by decide)
  unfold normLabel labelOf
  cases hlabel : strStr tempPath [driveChar] with
  | none => exact absurd hdrive (strStr_singleton_none.mp hlabel)
  | some label =>
      dsimp only [Option.getD_some]
      cases hdevice : (getDevicePathByLabel fw (cutName (label.drop 1)).1).1 with
      | none => simp
      | some device =>
          rcases assertMapping_cases fw s (some device) with
            ⟨_, mapping, ⟨⟩, hmapped, hassert⟩ | ⟨hnot, hassert⟩
          · simp [hassert, hmapped]
          · simp [hassert, hnot device rfl]

/-- With the prefix, only the label is asked for. -/
theorem resolvable_iff_label {path : Text} (hpath : pathPrefix <+: path)
    (convertToDefaultForm : Bool) :
    Resolvable fw s path convertToDefaultForm ↔
      (convertToDefaultForm = true → strStr path rootTypeInternal = none →
        ∀ tempPath, strStr path rootTypeLabel = some tempPath →
          ∀ device, (getDevicePathByLabel fw (labelOf tempPath)).1 = some device →
            Mapped fw s device) := by
  constructor
  · intro h
    exact h.label hpath
  · intro h
    -- the other branches are those of paths without the prefix
    constructor
    · exact fun hnot => absurd hpath hnot
    · exact fun hnot => absurd hpath hnot
    · exact fun hnot => absurd hpath hnot
    · exact fun _ => h

theorem normCopy_returns (path : Text) (convertToDefaultForm : Bool) :
    (∃ r, normCopy fw s path convertToDefaultForm = .ok r) ↔
      Resolvable fw s path convertToDefaultForm := by
  by_cases hprefix : pathPrefix <+: path
  · rw [normCopy, if_neg (not_not.mpr hprefix), resolvable_iff_label fw s hprefix]
    by_cases hconvert : convertToDefaultForm = true ∧ strStr path rootTypeInternal = none
    · rw [if_pos hconvert]
      cases hlabel : strStr path rootTypeLabel with
      | none =>
          -- neither internal nor by label: the path stays as it is
          refine iff_of_true ⟨_, rfl⟩ ?_
          intro _ _ tempPath htemp
          cases htemp
      | some tempPath =>
          dsimp only
          rw [normLabel_returns fw s hlabel]
          constructor
          · intro h _ _ tempPath' htemp
            cases htemp
            exact h
          · intro h
            exact h hconvert.1 hconvert.2 tempPath rfl
    · rw [if_neg hconvert]
      refine iff_of_true ⟨_, rfl⟩ ?_
      intro hform hinternal
      exact absurd ⟨hform, hinternal⟩ hconvert
  · rw [normCopy, if_pos hprefix]
    cases hdrive : strStr path [driveChar] with
    | none =>
        have hnot := strStr_singleton_none.mp hdrive
        dsimp only
        rw [normRelative_returns]
        constructor
        · rintro ⟨hdirectory, hshell⟩
          exact ⟨fun _ _ => hdirectory, fun _ _ => hshell, fun _ hmem => absurd hmem hnot,
            fun h => absurd h hprefix⟩
        · intro h
          exact ⟨h.directory hprefix hnot, h.shellDirectory hprefix hnot⟩
    | some tempPath =>
        have hmem : driveChar ∈ path := by
          by_contra hnot
          rw [strStr_singleton_none.mpr hnot] at hdrive
          cases hdrive
        dsimp only
        rw [normAbsolute_returns]
        constructor
        · intro h
          exact ⟨fun _ hnot => absurd hmem hnot, fun _ hnot => absurd hmem hnot, fun _ _ => h,
            fun h => absurd h hprefix⟩
        · exact fun h => h.drive hprefix hmem

end Branches

/-- The function returns exactly when there is a path and what its branch asks for can be named. -/
theorem norm_returns_iff (fw : Firmware) (s : UsfPrivateData) (filePath : Text)
    (convertToDefaultForm : Bool) :
    NormReturns fw s filePath convertToDefaultForm ↔
      filePath ≠ [] ∧ Resolvable fw s (unifySeparators filePath) convertToDefaultForm := by
  unfold NormReturns usfFilePathNorm
  rw [strDup_length]
  by_cases hnil : filePath = []
  · simp [hnil]
  · rw [if_neg hnil, and_iff_right hnil]
    exact normCopy_returns fw s _ convertToDefaultForm

/-- A machine with one volume, on which a shell knows no drive. -/
def noDrives : Firmware := { nvmeFirmware with shell := some ⟨none, fun _ => none, rfl⟩ }

/-- A path with a drive that the shell does not know runs into an assertion. -/
theorem unknown_drive_asserts :
    ¬ ∀ fw s filePath convertToDefaultForm, NormReturns fw s filePath convertToDefaultForm := by
  intro h
  have hreturns := h noDrives nvmeData (text ['f', 's', '9', ':', '\\', 'a']) true
  unfold NormReturns usfFilePathNorm at hreturns
  rw [strDup_length, if_neg (by decide), normCopy_returns] at hreturns
  have hprefix : ¬ pathPrefix <+: unifySeparators (text ['f', 's', '9', ':', '\\', 'a']) := by
    decide
  rcases hreturns.drive hprefix (by decide) ⟨none, fun _ => none, rfl⟩ rfl with ⟨device, hdevice, -⟩
  cases hdevice

end EfiLvgl.Usf
