import EfiLvgl.Lib.Slots
import EfiLvgl.Mapping.DevicePath

/-!
# EfiLvgl.Usf.Data — the script file protocol and its descriptors

The private data behind `EFI_SCRIPT_FILE_PROTOCOL` (`usf.c`) and the four functions
that work on its table of descriptors. `This` may be `NULL`; every other pointer is
taken to be the protocol that `UsfInit` installs. A file handle may be `NULL` too.
-/

namespace EfiLvgl.Usf

open EfiLvgl.Slots EfiLvgl.Mapping

/-- `ARRAY_SIZE (FilePool)`. -/
abbrev filePoolSize : Nat := 64

instance : NeZero filePoolSize := ⟨by decide⟩

/-- `USF_PRIVATE_DATA`, the fields that change. -/
structure UsfPrivateData where
  filePool : Table Ptr filePoolSize
  fileSystemTable : List DevicePath
  currentDirectory : Option (List Char16)

/-- `STDIN_FILENO`, `STDOUT_FILENO`, `STDERR_FILENO`. -/
def stdinFileno : Fin filePoolSize := 0
def stdoutFileno : Fin filePoolSize := 1
def stderrFileno : Fin filePoolSize := 2

/-- `&mStdIn`, `&mStdOut`, `&mStdErr`. -/
def mStdIn : Ptr := 1
def mStdOut : Ptr := 2
def mStdErr : Ptr := 3

/-- `UsfInit`, once no other script file protocol has been located; the table of
hardware paths is that of `ConsistMappingTableInit`. -/
def usfInit (fileSystemTable : List DevicePath) : UsfPrivateData where
  filePool := put (put (put (fun _ => none) stdinFileno mStdIn) stdoutFileno mStdOut)
    stderrFileno mStdErr
  fileSystemTable := fileSystemTable
  currentDirectory := none

/-- `UsfMap`: the status, and `*FileDescriptor` if it has been written. -/
def usfMap (s : UsfPrivateData) (this fileHandle : Option Ptr) :
    UsfPrivateData × EfiStatus × Option Int :=
  match this, fileHandle with
  | some _, some handle =>
      match firstFree s.filePool 3 with
      | some index =>
          ({ s with filePool := put s.filePool index handle }, .success, some index.val)
      | none => (s, .notFound, some (-1))
  | _, _ => (s, .invalidParameter, none)

/-- The entry of a descriptor inside the table. -/
def entryOf (fileDescriptor : Int) : Option (Fin filePoolSize) :=
  if h : 0 ≤ fileDescriptor ∧ fileDescriptor < filePoolSize then
    some ⟨fileDescriptor.toNat, by omega⟩
  else none

/-- `UsfUnmap`; 0, 1, 2 should not be unmapped. -/
def usfUnmap (s : UsfPrivateData) (this : Option Ptr) (fileDescriptor : Int) :
    UsfPrivateData × EfiStatus :=
  if this = none ∨ fileDescriptor < 3 then (s, .invalidParameter)
  else
    match entryOf fileDescriptor with
    | none => (s, .invalidParameter)
    | some index => ({ s with filePool := clear s.filePool index }, .success)

/-- `UsfGetFileHandle`: the status and `*FileHandle`. -/
def usfGetFileHandle (s : UsfPrivateData) (this : Option Ptr) (fileDescriptor : Int) :
    EfiStatus × Option Ptr :=
  match this, entryOf fileDescriptor with
  | some _, some index =>
      match s.filePool index with
      | some handle => (.success, some handle)
      | none => (.notFound, none)
  | _, _ => (.invalidParameter, none)

/-- `UsfSetStdIo`; `NULL` means restoring the default. -/
def usfSetStdIo (s : UsfPrivateData) (stdIn stdOut stdErr : Option Ptr) :
    UsfPrivateData × EfiStatus :=
  ({ s with
      filePool := put (put (put s.filePool stdinFileno (stdIn.getD mStdIn)) stdoutFileno
        (stdOut.getD mStdOut)) stderrFileno (stdErr.getD mStdErr) }, .success)

/-! ## Descriptors and entries -/

theorem entryOf_eq_some {fileDescriptor : Int} {index : Fin filePoolSize} :
    entryOf fileDescriptor = some index ↔ fileDescriptor = index.val := by
  have hlt : index.val < 64 := index.isLt
  rw [entryOf]
  constructor
  · intro h
    split at h
    · rw [Option.some.injEq] at h
      rw [← h]
      simp only
      omega
    · cases h
  · rintro rfl
    rw [dif_pos (by simp only [filePoolSize]; omega)]
    simp

theorem entryOf_eq_none {fileDescriptor : Int} :
    entryOf fileDescriptor = none ↔ fileDescriptor < 0 ∨ 64 ≤ fileDescriptor := by
  rw [entryOf]
  split
  · next h => simp only [filePoolSize] at h; simp; omega
  · next h => simp only [filePoolSize] at h; simp; omega

@[simp] theorem entryOf_val (index : Fin filePoolSize) : entryOf index.val = some index :=
  entryOf_eq_some.mpr rfl

end EfiLvgl.Usf
