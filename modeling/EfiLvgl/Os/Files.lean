import EfiLvgl.Lib.Handles
import EfiLvgl.Usf.FileObject
import EfiLvgl.Usf.Label

/-!
# EfiLvgl.Os.Files — the files behind the functions of `os`

What `modos.c` and `mp_import_stat` do with file handles, from `UsfOpen` on. `Delete` closes the
handle whether or not the file can be deleted; `remove_dir` closes it once more where it cannot,
`mp_import_stat` leaves the file open that it finds, and so does `os.stat` when there is no memory
for its result. Besides, `UsfOpen` leaves the roots open that it passes over on the way to a label
(`handles_balanced_iff`).
-/

namespace EfiLvgl.Os

open EfiLvgl.Usf EfiLvgl.Mapping

/-! ## What the firmware answers -/

/-- A status of this module: one of the firmware, the warning of `Delete`, or `EEXIST`. -/
inductive OsStatus where
  | efi (status : EfiStatus)
  | warnDeleteFailure
  | eexist
  deriving DecidableEq, Repr

/-- `EFI_SUCCESS`; anything else is raised. -/
def OsStatus.success : OsStatus := .efi .success

/-- `EFI_FILE_INFO`, of which the functions read these fields. -/
structure FileInfo where
  fileAttribute : UInt64
  fileSize : UInt64
  fileName : Text
  deriving DecidableEq, Repr

/-- `(info->Attribute & EFI_FILE_DIRECTORY) != 0`. -/
def FileInfo.isDirectory (info : FileInfo) : Bool := info.fileAttribute &&& efiFileDirectory ≠ 0

/-- `.` and `..`. -/
def FileInfo.isDot (info : FileInfo) : Bool :=
  info.fileName = [ch '.'] || info.fileName = [ch '.', ch '.']

/-- The answers that `remove_dir` gets on an entry: what the enumeration shows, whether the entry
opens, and of the handle its info and what comes of deleting it. -/
structure EntryAnswers where
  info : FileInfo
  openStatus : EfiStatus
  handleInfo : Option FileInfo
  delete : OsStatus

/-- A directory as it is enumerated, each entry with the directory behind it. An error ends the
enumeration as the end of the directory does. -/
inductive Entries where
  | done
  | entry (answers : EntryAnswers) (entries rest : Entries)

/-- The answers on an opened handle. -/
structure OpenedFile where
  info : Option FileInfo
  entries : Entries
  delete : OsStatus
  setInfo : FileInfo → EfiStatus

/-! ## `Open` of the script file protocol -/

/-- An instance of the script file protocol, with the answers of the firmware to its calls: those on
the way to a file, for each call of `Open`, and those on the handle that it returns. -/
structure ScriptFile where
  this : Ptr
  data : UsfPrivateData
  firmware : Nat → Firmware
  files : Nat → Files
  answers : Ptr → OpenedFile

/-- What comes of a call of `Open`: the number of the handle and the answers on it, or a status; and
the number of the next handle. -/
structure Opening where
  file : Except EfiStatus (Nat × OpenedFile)
  events : List HandleEvent
  next : Nat

/-- The events of `UsfOpen`, the handles numbered in the order of their opening. The handle that is
closed is the root, number `root`. -/
def numberEvents (root : Nat) : List FileEvent → Nat → List HandleEvent × Nat
  | [], next => ([], next)
  | .opened _ :: evs, next =>
      let r := numberEvents root evs (next + 1)
      (.opened next :: r.1, r.2)
  | .closed _ :: evs, next =>
      let r := numberEvents root evs next
      (.closed root :: r.1, r.2)
  | _ :: evs, next => numberEvents root evs next

/-- The roots that stay open behind a call of `Open`. -/
def ScriptFile.strays (sfp : ScriptFile) (call : Nat) (path : Text) : List Ptr :=
  strayOf (sfp.firmware call) sfp.data path

/-- `sfp->Open`. The root comes behind those that are passed over, and the handle that is returned
is the last one that has been opened. -/
def ScriptFile.openFile (sfp : ScriptFile) (call : Nat) (path : Text) (mode attributes : UInt64)
    (next : Nat) : Except Stop Opening :=
  match usfOpen (sfp.firmware call) (sfp.files call) sfp.data (some sfp.this) (some path) mode
    attributes with
  | .error stop => .error stop
  | .ok (status, fh, evs) =>
      let numbered := numberEvents (next + (sfp.strays call path).length) evs next
      .ok {
        file := match fh with
          | none => .error status
          | some fh => .ok (numbered.2 - 1, sfp.answers fh)
        events := numbered.1
        next := numbered.2 }

/-- A call of `Open` that returns a handle. -/
def ScriptFile.Opens (sfp : ScriptFile) (call : Nat) (path : Text) (mode attributes : UInt64)
    (file : OpenedFile) : Prop :=
  ∃ status fh evs,
    usfOpen (sfp.firmware call) (sfp.files call) sfp.data (some sfp.this) (some path) mode
      attributes = .ok (status, some fh, evs) ∧ file = sfp.answers fh

/-! ## `remove_dir` -/

/-- `CLOSE_FILE`. -/
def closeFile : Option Nat → List HandleEvent
  | none => []
  | some fh => [.closed fh]

/-- What comes of the loop over a directory, the next handle being known by its number: nothing, or
the status that is returned from within. -/
structure LoopResult where
  returned : Option OsStatus
  events : List HandleEvent
  next : Nat

/-- What comes of a function that returns a status. -/
structure CallResult where
  status : OsStatus
  events : List HandleEvent
  next : Nat

/-- `remove_dir`, around what its loop comes to. -/
def removeDir (dir next : Nat) (info : Option FileInfo) (delete : OsStatus) (loop : LoopResult) :
    CallResult :=
  match info with
  | none => ⟨.efi .outOfResources, [], next⟩
  | some info =>
      if info.isDirectory then
        match loop.returned with
        | some status => ⟨status, loop.events, loop.next⟩
        | none => ⟨delete, loop.events ++ [.consumed dir], loop.next⟩
      else ⟨.efi .accessDenied, [], next⟩

/-- What is done with an entry that opens as `fh`, around what the loop over its own entries would
come to. -/
def removeOpened (fh : Nat) (a : EntryAnswers) (loop : LoopResult) : CallResult :=
  let r : CallResult :=
    if a.info.isDirectory then removeDir fh (fh + 1) a.handleInfo a.delete loop
    else ⟨a.delete, [.consumed fh], fh + 1⟩
  if r.status = .success then { r with events := .opened fh :: r.events }
  else { r with events := .opened fh :: (r.events ++ [.closed fh]) }

/-- The loop of `remove_dir`. -/
def removeEntries : Entries → Nat → LoopResult
  | .done, next => ⟨none, [], next⟩
  | .entry a entries rest, next =>
      if a.info.isDot then removeEntries rest next
      else if a.openStatus.isError then ⟨some (.efi a.openStatus), [], next⟩
      else
        let r := removeOpened next a (removeEntries entries (next + 1))
        if r.status = .success then
          let loop := removeEntries rest r.next
          { loop with events := r.events ++ loop.events }
        else ⟨some r.status, r.events, r.next⟩

/-! ## The functions of `os` -/

/-- `mod_os_rmdir`. -/
def modOsRmdir (sfp : Except EfiStatus ScriptFile) (path : Text) :
    Except Stop (OsStatus × List HandleEvent) :=
  match sfp with
  | .error status => .ok (.efi status, closeFile none)
  | .ok sfp => do
      let o ← sfp.openFile 0 path (efiFileModeRead ||| efiFileModeWrite) 0 0
      match o.file with
      | .error status => .ok (.efi status, o.events ++ closeFile none)
      | .ok (fh, file) =>
          let r := removeDir fh (fh + 1) file.info file.delete (removeEntries file.entries (fh + 1))
          .ok (r.status, o.events ++
            (r.events ++ closeFile (if r.status = .success then none else some fh)))

/-- `mod_os_remove`. -/
def modOsRemove (sfp : Except EfiStatus ScriptFile) (path : Text) :
    Except Stop (OsStatus × List HandleEvent) :=
  match sfp with
  | .error status => .ok (.efi status, closeFile none)
  | .ok sfp => do
      let o ← sfp.openFile 0 path (efiFileModeRead ||| efiFileModeWrite) 0 0
      match o.file with
      | .error status => .ok (.efi status, o.events ++ closeFile none)
      | .ok (fh, file) =>
          match file.info with
          | none => .ok (.efi .accessDenied, o.events ++ closeFile (some fh))
          | some info =>
              if info.isDirectory then .ok (.efi .accessDenied, o.events ++ closeFile (some fh))
              else .ok (file.delete, o.events ++ .consumed fh :: closeFile none)

/-- `mod_os_rename`: the info that is set is that of the source under the other name. -/
def modOsRename (sfp : Except EfiStatus ScriptFile) (src dst : Text) :
    Except Stop (OsStatus × List HandleEvent) :=
  match sfp with
  | .error status => .ok (.efi status, closeFile none)
  | .ok sfp => do
      let o ← sfp.openFile 0 src (efiFileModeRead ||| efiFileModeWrite) 0 0
      match o.file with
      | .error status => .ok (.efi status, o.events ++ closeFile none)
      | .ok (fh, file) =>
          match file.info with
          | none => .ok (.success, o.events ++ closeFile (some fh))
          | some srcInfo =>
              .ok (.efi (file.setInfo { srcInfo with fileName := dst }),
                o.events ++ closeFile (some fh))

/-- What `os.stat` returns: a result with `st_mode` and `st_size`, or `None`. -/
inductive StatResult where
  | stat (mode size : UInt64)
  | noResult
  | memoryError
  deriving DecidableEq, Repr

/-- `mod_os_stat`; `heap` says that `m_new_obj` has memory for the result. A `MemoryError` leaves
the function at once. -/
def modOsStat (sfp : Except EfiStatus ScriptFile) (heap : Bool) (path : Text) :
    Except Stop (StatResult × List HandleEvent) :=
  match sfp with
  | .error _ => .ok (.noResult, closeFile none)
  | .ok sfp => do
      let o ← sfp.openFile 0 path efiFileModeRead 0 0
      match o.file with
      | .error _ => .ok (.noResult, o.events ++ closeFile none)
      | .ok (fh, file) =>
          match file.info with
          | none => .ok (.noResult, o.events ++ closeFile (some fh))
          | some info =>
              if heap then
                .ok (.stat info.fileAttribute info.fileSize, o.events ++ closeFile (some fh))
              else .ok (.memoryError, o.events)

/-- `mod_os_mkdir`. -/
def modOsMkdir (sfp : Except EfiStatus ScriptFile) (path : Text) :
    Except Stop (OsStatus × List HandleEvent) :=
  match sfp with
  | .error status => .ok (.efi status, closeFile none)
  | .ok sfp => do
      let o ← sfp.openFile 0 path efiFileModeRead 0 0
      match o.file with
      | .ok (fh, _) => .ok (.eexist, o.events ++ closeFile (some fh))
      | .error _ => do
          let o' ← sfp.openFile 1 path (efiFileModeRead ||| efiFileModeWrite ||| efiFileModeCreate)
            efiFileDirectory o.next
          match o'.file with
          | .ok (fh, _) => .ok (.success, o.events ++ (o'.events ++ closeFile (some fh)))
          | .error status => .ok (.efi status, o.events ++ (o'.events ++ closeFile none))

/-- `mod_os_chdir`: the status, the path that `ChangeCurrentDirectory` is handed, and the events. -/
def modOsChdir (sfp : Except EfiStatus ScriptFile) (path : Text) :
    Except Stop (OsStatus × Option Text × List HandleEvent) :=
  match sfp with
  | .error status => .ok (.efi status, none, closeFile none)
  | .ok sfp => do
      let o ← sfp.openFile 0 path efiFileModeRead 0 0
      match o.file with
      | .error status => .ok (.efi status, none, o.events ++ closeFile none)
      | .ok (fh, _) => .ok (.success, some path, o.events ++ closeFile (some fh))

/-- `mp_import_stat_t`. -/
inductive ImportStat where
  | noExist
  | dir
  | file
  deriving DecidableEq, Repr

/-- The loop of `mp_import_stat` over the instances of the script file protocol. -/
def importStatLoop (path : Text) : List ScriptFile → Nat → Except Stop (ImportStat × List HandleEvent)
  | [], _ => .ok (.noExist, [])
  | fs :: rest, next => do
      let o ← fs.openFile 0 path efiFileModeRead 0 next
      match o.file with
      | .error _ =>
          let r ← importStatLoop path rest o.next
          .ok (r.1, o.events ++ r.2)
      | .ok (fh, file) =>
          match file.info with
          | some info => .ok (if info.isDirectory then .dir else .file, o.events)
          | none =>
              let r ← importStatLoop path rest o.next
              .ok (r.1, o.events ++ .closed fh :: r.2)

/-- `mp_import_stat`. -/
def mpImportStat (protocols : List ScriptFile) (path : Text) :
    Except Stop (ImportStat × List HandleEvent) :=
  importStatLoop path protocols 0

/-! ## Calls -/

/-- A call of one of the functions, with the surroundings it finds. -/
inductive OsCall where
  | rmdir (sfp : Except EfiStatus ScriptFile) (path : Text)
  | remove (sfp : Except EfiStatus ScriptFile) (path : Text)
  | rename (sfp : Except EfiStatus ScriptFile) (src dst : Text)
  | stat (sfp : Except EfiStatus ScriptFile) (heap : Bool) (path : Text)
  | mkdir (sfp : Except EfiStatus ScriptFile) (path : Text)
  | chdir (sfp : Except EfiStatus ScriptFile) (path : Text)
  | importStat (protocols : List ScriptFile) (path : Text)

/-- What a call does with handles until it returns or raises, if it does not stop at an assertion. -/
def OsCall.events : OsCall → Except Stop (List HandleEvent)
  | .rmdir sfp path => Prod.snd <$> modOsRmdir sfp path
  | .remove sfp path => Prod.snd <$> modOsRemove sfp path
  | .rename sfp src dst => Prod.snd <$> modOsRename sfp src dst
  | .stat sfp heap path => Prod.snd <$> modOsStat sfp heap path
  | .mkdir sfp path => Prod.snd <$> modOsMkdir sfp path
  | .chdir sfp path => (fun r => r.2.2) <$> modOsChdir sfp path
  | .importStat protocols path => Prod.snd <$> mpImportStat protocols path

/-! ## Where handles get lost -/

/-- `remove_dir` gets as far as the entries of a handle. -/
def isDirectoryHandle (info : Option FileInfo) : Bool := info.any FileInfo.isDirectory

/-- An entry that opens is going to be deleted; `cleared` is about the entries in it. -/
def EntryAnswers.reaches (a : EntryAnswers) (cleared : Bool) : Bool :=
  !a.info.isDirectory || isDirectoryHandle a.handleInfo && cleared

/-- Every entry opens and is deleted, with all that is in it. -/
def Entries.cleared : Entries → Bool
  | .done => true
  | .entry a entries rest =>
      (a.info.isDot ||
        !a.openStatus.isError && (a.reaches entries.cleared && a.delete = .success)) &&
          rest.cleared

/-- The walk gets to something that cannot be deleted. -/
def Entries.deleteFails : Entries → Bool
  | .done => false
  | .entry a entries rest =>
      if a.info.isDot then rest.deleteFails
      else
        !a.openStatus.isError &&
          (a.info.isDirectory && isDirectoryHandle a.handleInfo && entries.deleteFails ||
            a.reaches entries.cleared && (a.delete ≠ .success || rest.deleteFails))

/-- The removal of an opened directory gets to something that cannot be deleted. -/
def OpenedFile.deleteFails (file : OpenedFile) : Bool :=
  isDirectoryHandle file.info &&
    (file.entries.deleteFails || file.entries.cleared && file.delete ≠ .success)

/-- No root is passed over on the way to the file, and the file has a property if it opens. -/
def WhenOpened (sfp : Except EfiStatus ScriptFile) (path : Text) (mode : UInt64)
    (p : OpenedFile → Prop) : Prop :=
  match sfp with
  | .error _ => True
  | .ok fs => fs.strays 0 path = [] ∧ ∀ file, fs.Opens 0 path mode 0 file → p file

/-- The condition for a call: no root is passed over, nothing that is to be deleted resists, there is
memory for the result of `os.stat`, and no instance of the protocol finds what is imported. Where
`os.mkdir` does not find the path, it opens it once more. -/
def OsCall.Plain : OsCall → Prop
  | .rmdir sfp path => WhenOpened sfp path (efiFileModeRead ||| efiFileModeWrite) fun file =>
      file.deleteFails = false
  | .remove sfp path => WhenOpened sfp path (efiFileModeRead ||| efiFileModeWrite) fun _ => True
  | .rename sfp src _ => WhenOpened sfp src (efiFileModeRead ||| efiFileModeWrite) fun _ => True
  | .stat sfp heap path => WhenOpened sfp path efiFileModeRead fun file =>
      file.info ≠ none → heap = true
  | .mkdir sfp path => WhenOpened sfp path efiFileModeRead (fun _ => True) ∧
      ∀ fs, sfp = .ok fs → (∀ file, ¬ fs.Opens 0 path efiFileModeRead 0 file) →
        fs.strays 1 path = []
  | .chdir sfp path => WhenOpened sfp path efiFileModeRead fun _ => True
  | .importStat protocols path => ∀ fs ∈ protocols, fs.strays 0 path = [] ∧
      ∀ file, fs.Opens 0 path efiFileModeRead 0 file → file.info = none

/-! ## `remove_dir` and its handles -/

/-- What is known of the loop over the entries of a directory. -/
structure LoopSpec (n : Nat) (entries : Entries) (r : LoopResult) : Prop where
  segment : Segment n r.next r.events entries.deleteFails
  returned_iff : r.returned = none ↔ entries.cleared = true
  not_success : ∀ status, r.returned = some status → status ≠ .success

/-- What is known of the removal of an opened entry. -/
structure OpenedSpec (n : Nat) (a : EntryAnswers) (entries : Entries) (r : CallResult) : Prop where
  segment : Segment n r.next r.events
    (a.info.isDirectory && isDirectoryHandle a.handleInfo && entries.deleteFails ||
      a.reaches entries.cleared && a.delete ≠ .success)
  success_iff : r.status = .success ↔ (a.reaches entries.cleared && a.delete = .success) = true

/-- `Delete` closes the handle, and `remove_dir` closes it again when there was a warning. -/
theorem removeOpened_file {n : Nat} {a : EntryAnswers} (hfile : a.info.isDirectory = false)
    (entries : Entries) (loop : LoopResult) : OpenedSpec n a entries (removeOpened n a loop) := by
  have hdeleted : Segment n (n + 1) (.opened n :: ([] ++ [HandleEvent.consumed n])) false :=
    (Segment.nil (n + 1)).around (.inr rfl)
  by_cases hdelete : a.delete = .success
  · constructor
    · simpa [removeOpened, hfile, hdelete, EntryAnswers.reaches] using hdeleted
    · simp [removeOpened, hfile, hdelete, EntryAnswers.reaches]
  · have hagain : Segment n (n + 1)
        (HandleEvent.opened n :: ([] ++ [HandleEvent.consumed n]) ++ [HandleEvent.closed n]) true :=
      hdeleted.again (.inl rfl) (by omega) (by simp [HandleEvent.closes])
    constructor
    · simpa [removeOpened, hfile, hdelete, EntryAnswers.reaches] using hagain
    · simp [removeOpened, hfile, hdelete, EntryAnswers.reaches]

/-- A directory: unless its own deletion was tried, it is closed by the caller only. -/
theorem removeDir_directory {dir : Nat} {entries : Entries} {loop : LoopResult}
    (h : LoopSpec (dir + 1) entries loop) {info : FileInfo} (hdir : info.isDirectory = true)
    (delete : OsStatus) :
    Segment dir (removeDir dir (dir + 1) (some info) delete loop).next
        (.opened dir :: ((removeDir dir (dir + 1) (some info) delete loop).events ++
          closeFile (if (removeDir dir (dir + 1) (some info) delete loop).status = .success
            then none else some dir)))
        (entries.deleteFails || entries.cleared && delete ≠ .success) ∧
      ((removeDir dir (dir + 1) (some info) delete loop).status = .success ↔
        (entries.cleared && delete = .success) = true) := by
  cases hreturned : loop.returned with
  | some status =>
      -- the loop was left: the directory is still open
      have hstatus : status ≠ .success := h.not_success status hreturned
      have hcleared : entries.cleared = false := by
        by_contra hcleared
        rw [h.returned_iff.mpr (by simpa using hcleared)] at hreturned
        cases hreturned
      have hclosed : Segment dir loop.next
          (.opened dir :: (loop.events ++ [HandleEvent.closed dir])) entries.deleteFails :=
        h.segment.around (.inl rfl)
      constructor
      · simpa [removeDir, hdir, hreturned, hstatus, hcleared, closeFile] using hclosed
      · simp [removeDir, hdir, hreturned, hstatus, hcleared]
  | none =>
      have hcleared : entries.cleared = true := h.returned_iff.mp hreturned
      have hconsumed : Segment dir loop.next
          (.opened dir :: (loop.events ++ [HandleEvent.consumed dir])) entries.deleteFails :=
        h.segment.around (.inr rfl)
      by_cases hdelete : delete = .success
      · constructor
        · simpa [removeDir, hdir, hreturned, hcleared, hdelete, closeFile] using hconsumed
        · simp [removeDir, hdir, hreturned, hcleared, hdelete]
      · have hagain : Segment dir loop.next
            (HandleEvent.opened dir :: (loop.events ++ [HandleEvent.consumed dir]) ++
              [HandleEvent.closed dir]) true :=
          hconsumed.again (.inl rfl) ⟨le_refl dir, h.segment.le⟩ (by simp [HandleEvent.closes])
        constructor
        · simpa [removeDir, hdir, hreturned, hcleared, hdelete, closeFile] using hagain
        · simp [removeDir, hdir, hreturned, hcleared, hdelete]

/-- Any handle: what is no directory is closed by the caller. -/
theorem removeDir_spec {dir : Nat} {entries : Entries} {loop : LoopResult}
    (h : LoopSpec (dir + 1) entries loop) (info : Option FileInfo) (delete : OsStatus) :
    Segment dir (removeDir dir (dir + 1) info delete loop).next
        (.opened dir :: ((removeDir dir (dir + 1) info delete loop).events ++
          closeFile (if (removeDir dir (dir + 1) info delete loop).status = .success then none
            else some dir)))
        (isDirectoryHandle info &&
          (entries.deleteFails || entries.cleared && delete ≠ .success)) ∧
      ((removeDir dir (dir + 1) info delete loop).status = .success ↔
        (isDirectoryHandle info && (entries.cleared && delete = .success)) = true) := by
  -- a handle that is no directory is closed again at once
  have hnothing : Segment dir (dir + 1) (.opened dir :: ([] ++ [HandleEvent.closed dir])) false :=
    (Segment.nil (dir + 1)).around (.inl rfl)
  cases hinfo : info with
  | none =>
      constructor
      · simpa [removeDir, isDirectoryHandle, OsStatus.success, closeFile] using hnothing
      · simp [removeDir, isDirectoryHandle, OsStatus.success]
  | some info =>
      cases hdir : info.isDirectory with
      | false =>
          constructor
          · simpa [removeDir, isDirectoryHandle, hdir, OsStatus.success, closeFile] using hnothing
          · simp [removeDir, isDirectoryHandle, hdir, OsStatus.success]
      | true =>
          have hdirectory : isDirectoryHandle (some info) = true := hdir
          rw [hdirectory, Bool.true_and, Bool.true_and]
          exact removeDir_directory h hdir delete

theorem removeOpened_spec {n : Nat} {entries : Entries} {loop : LoopResult}
    (h : LoopSpec (n + 1) entries loop) (a : EntryAnswers) :
    OpenedSpec n a entries (removeOpened n a loop) := by
  cases hdir : a.info.isDirectory with
  | false => exact removeOpened_file hdir entries loop
  | true =>
      rcases removeDir_spec h a.handleInfo a.delete with ⟨hsegment, hsuccess⟩
      have htorn : (a.info.isDirectory && isDirectoryHandle a.handleInfo && entries.deleteFails ||
          a.reaches entries.cleared && a.delete ≠ .success) =
          (isDirectoryHandle a.handleInfo &&
            (entries.deleteFails || entries.cleared && a.delete ≠ .success)) := by
        rw [EntryAnswers.reaches, hdir, Bool.and_or_distrib_left, Bool.and_assoc, Bool.true_and,
          Bool.not_true, Bool.false_or, Bool.and_assoc]
      have hdeleted : (a.reaches entries.cleared && a.delete = .success) =
          (isDirectoryHandle a.handleInfo && (entries.cleared && a.delete = .success)) := by
        rw [EntryAnswers.reaches, hdir, Bool.not_true, Bool.false_or, Bool.and_assoc]
      -- Delete closes the handle that it is given; otherwise the caller closes it
      by_cases hstatus : (removeDir n (n + 1) a.handleInfo a.delete loop).status = .success
      · have heq : removeOpened n a loop =
            { removeDir n (n + 1) a.handleInfo a.delete loop with
              events := .opened n :: (removeDir n (n + 1) a.handleInfo a.delete loop).events } := by
          simp only [removeOpened, hdir, if_true, hstatus]
        rw [if_pos hstatus, closeFile, List.append_nil] at hsegment
        constructor
        · rw [heq, htorn]
          exact hsegment
        · rw [heq, hdeleted]
          exact hsuccess
      · have heq : removeOpened n a loop =
            { removeDir n (n + 1) a.handleInfo a.delete loop with
              events := .opened n ::
                ((removeDir n (n + 1) a.handleInfo a.delete loop).events ++ [.closed n]) } := by
          simp only [removeOpened, hdir, if_true, hstatus, if_false]
        rw [if_neg hstatus, closeFile] at hsegment
        constructor
        · rw [heq, htorn]
          exact hsegment
        · rw [heq, hdeleted]
          exact hsuccess

section Entry

variable {n : Nat} {a : EntryAnswers} {entries rest : Entries} (hdot : a.info.isDot = false)
include hdot

/-- An entry that does not open ends the loop. -/
theorem removeEntries_error (hopen : a.openStatus.isError = true) :
    LoopSpec n (.entry a entries rest) (removeEntries (.entry a entries rest) n) := by
  have heq : removeEntries (.entry a entries rest) n = ⟨some (.efi a.openStatus), [], n⟩ := by
    simp [removeEntries, hdot, hopen]
  have herror : OsStatus.efi a.openStatus ≠ .success := by
    rw [EfiStatus.isError, decide_eq_true_eq] at hopen
    simpa [OsStatus.success] using hopen
  rw [heq]
  constructor
  · simpa [Entries.deleteFails, hdot, hopen] using Segment.nil n
  · simp [Entries.cleared, hdot, hopen]
  · intro status hstatus
    cases hstatus
    exact herror

/-- An entry that is gone: the loop goes on behind it. -/
theorem removeEntries_gone (hopen : a.openStatus.isError = false)
    (hspec : OpenedSpec n a entries (removeOpened n a (removeEntries entries (n + 1))))
    (hstatus : (removeOpened n a (removeEntries entries (n + 1))).status = .success)
    (hrest : ∀ n, LoopSpec n rest (removeEntries rest n)) :
    LoopSpec n (.entry a entries rest) (removeEntries (.entry a entries rest) n) := by
  have heq : removeEntries (.entry a entries rest) n =
      { removeEntries rest (removeOpened n a (removeEntries entries (n + 1))).next with
        events := (removeOpened n a (removeEntries entries (n + 1))).events ++
          (removeEntries rest
            (removeOpened n a (removeEntries entries (n + 1))).next).events } := by
    simp only [removeEntries, hdot, hopen, Bool.false_eq_true, if_false, hstatus, if_true]
  have hbehind := hrest (removeOpened n a (removeEntries entries (n + 1))).next
  have hgone := hspec.success_iff.mp hstatus
  rw [Bool.and_eq_true, decide_eq_true_eq] at hgone
  rw [heq]
  constructor
  · simpa [Entries.deleteFails, hdot, hopen, hgone.1, hgone.2] using
      hspec.segment.append hbehind.segment
  · simpa [Entries.cleared, hdot, hopen, hgone.1, hgone.2] using hbehind.returned_iff
  · exact hbehind.not_success

/-- An entry that stays: nothing behind it is reached. -/
theorem removeEntries_kept (hopen : a.openStatus.isError = false)
    (hspec : OpenedSpec n a entries (removeOpened n a (removeEntries entries (n + 1))))
    (hstatus : (removeOpened n a (removeEntries entries (n + 1))).status ≠ .success) :
    LoopSpec n (.entry a entries rest) (removeEntries (.entry a entries rest) n) := by
  have heq : removeEntries (.entry a entries rest) n =
      ⟨some (removeOpened n a (removeEntries entries (n + 1))).status,
        (removeOpened n a (removeEntries entries (n + 1))).events,
        (removeOpened n a (removeEntries entries (n + 1))).next⟩ := by
    simp only [removeEntries, hdot, hopen, Bool.false_eq_true, if_false, hstatus]
  have hkept : (a.reaches entries.cleared && a.delete = .success) = false := by
    by_contra hgone
    exact hstatus (hspec.success_iff.mpr (by simpa using hgone))
  have htorn : (Entries.entry a entries rest).deleteFails =
      (a.info.isDirectory && isDirectoryHandle a.handleInfo && entries.deleteFails ||
        a.reaches entries.cleared && a.delete ≠ .success) := by
    rw [Entries.deleteFails, hdot, hopen]
    -- where its deletion is tried, it is tried in vain
    cases hreaches : a.reaches entries.cleared with
    | false => simp
    | true =>
        rw [hreaches, Bool.true_and, decide_eq_false_iff_not] at hkept
        simp [hkept]
  rw [heq]
  constructor
  · rw [htorn]
    exact hspec.segment
  · simp [Entries.cleared, hdot, hopen, hkept]
  · intro status hsome
    cases hsome
    exact hstatus

end Entry

/-- The loop of `remove_dir`, over a tree of any depth. -/
theorem removeEntries_spec (entries : Entries) (n : Nat) :
    LoopSpec n entries (removeEntries entries n) := by
  induction entries generalizing n with
  | done =>
      refine ⟨Segment.nil n, ?_, fun status h => by cases h⟩
      simp [removeEntries, Entries.cleared]
  | entry a entries rest ihentries ihrest =>
      cases hdot : a.info.isDot with
      | true =>
          have heq : removeEntries (.entry a entries rest) n = removeEntries rest n := by
            simp [removeEntries, hdot]
          have hspec := ihrest n
          rw [heq]
          constructor
          · simpa [Entries.deleteFails, hdot] using hspec.segment
          · simpa [Entries.cleared, hdot] using hspec.returned_iff
          · exact hspec.not_success
      | false =>
          cases hopen : a.openStatus.isError with
          | true => exact removeEntries_error hdot hopen
          | false =>
              -- the entry's own handle is the next one, and what is below it comes after
              have hspec := removeOpened_spec (ihentries (n + 1)) a
              by_cases hstatus :
                  (removeOpened n a (removeEntries entries (n + 1))).status = .success
              · exact removeEntries_gone hdot hopen hspec hstatus ihrest
              · exact removeEntries_kept hdot hopen hspec hstatus

/-! ## `Open` and its handles -/

theorem numberEvents_opened (root : Nat) (roots : List Ptr) (behind : List FileEvent) (next : Nat) :
    numberEvents root (roots.map .opened ++ behind) next =
      ((List.range' next roots.length).map .opened ++
          (numberEvents root behind (next + roots.length)).1,
        (numberEvents root behind (next + roots.length)).2) := by
  induction roots generalizing next with
  | nil => rfl
  | cons r roots ih =>
      rw [List.map_cons, List.cons_append, numberEvents, ih, List.length_cons, List.range'_succ,
        Nat.add_comm roots.length 1, ← Nat.add_assoc]
      rfl

/-- What is known of a call of `Open`: behind the roots that stay open, a handle that is returned is
the last one, and all others are closed. -/
structure OpenSpec (stray : Bool) (next : Nat) (o : Opening) : Prop where
  failed : ∀ status, o.file = .error status → Segment next o.next o.events stray
  opened : ∀ fh file, o.file = .ok (fh, file) → o.next = fh + 1 ∧
    ∃ front, Segment next fh front stray ∧ (front ++ [HandleEvent.opened fh]).Perm o.events

section Open

variable {sfp : ScriptFile} {call : Nat} {path : Text} {mode attributes : UInt64} {next : Nat}
  {o : Opening}

theorem openFile_spec (h : sfp.openFile call path mode attributes next = .ok o) :
    OpenSpec (decide (sfp.strays call path ≠ [])) next o := by
  rw [ScriptFile.openFile] at h
  split at h
  · cases h
  · next status fh evs hopen =>
      rcases usfOpen_shape hopen with ⟨behind, hevs, hby⟩
      have hnumbered := numberEvents_opened (next + (sfp.strays call path).length)
        (sfp.strays call path) behind next
      have hstray : decide (sfp.strays call path ≠ []) =
          decide ((sfp.strays call path).length ≠ 0) := by
        simp
      have hleft := Segment.left next (sfp.strays call path).length
      have hroot : Segment (next + (sfp.strays call path).length)
          (next + (sfp.strays call path).length + 1)
          (.opened (next + (sfp.strays call path).length) ::
            ([] ++ [.closed (next + (sfp.strays call path).length)])) false :=
        (Segment.nil _).around (.inl rfl)
      have hclosed := hleft.append hroot
      rw [Bool.or_false] at hclosed
      rw [hevs, ← ScriptFile.strays, hnumbered] at h
      rw [hstray]
      cases h
      cases hby with
      | nothing =>
          refine ⟨fun _ _ => ?_, fun fh file hfile => ?_⟩
          · simpa [numberEvents] using hleft
          · cases hfile
      | noFile root =>
          refine ⟨fun _ _ => ?_, fun fh file hfile => ?_⟩
          · simpa [numberEvents] using hclosed
          · cases hfile
      | root root =>
          refine ⟨fun st hfile => ?_, fun fh file hfile => ?_⟩
          · cases hfile
          · cases hfile
            exact ⟨rfl, _, hleft, List.Perm.refl _⟩
      | file root f =>
          refine ⟨fun st hfile => ?_, fun fh file hfile => ?_⟩
          · cases hfile
          · cases hfile
            -- the root is closed behind the opening of the file
            refine ⟨rfl, _, hclosed, ?_⟩
            simp only [numberEvents, List.append_assoc, List.cons_append, List.nil_append]
            exact ((List.Perm.swap _ _ []).cons _).append_left _

/-- The handle is the one that `Open` returns. -/
theorem openFile_file (h : sfp.openFile call path mode attributes next = .ok o)
    (file : OpenedFile) :
    sfp.Opens call path mode attributes file ↔ ∃ fh, o.file = .ok (fh, file) := by
  rw [ScriptFile.openFile] at h
  unfold ScriptFile.Opens
  split at h
  · cases h
  · next status fh evs hopen =>
      rw [hopen]
      cases h
      cases fh with
      | none => simp
      | some fh =>
          constructor
          · rintro ⟨status', fh', evs', heq, rfl⟩
            cases heq
            exact ⟨_, rfl⟩
          · rintro ⟨number, hfile⟩
            cases hfile
            exact ⟨status, fh, evs, rfl, rfl⟩

/-- What is done with the handle comes behind the roots. -/
theorem OpenSpec.behind {stray torn : Bool} {fh m : Nat} {file : OpenedFile}
    {use : List HandleEvent} (h : OpenSpec stray next o) (hfile : o.file = .ok (fh, file))
    (huse : Segment fh m (.opened fh :: use) torn) :
    Segment next m (o.events ++ use) (stray || torn) := by
  rcases h.opened fh file hfile with ⟨-, front, hfront, hperm⟩
  refine (hfront.append huse).perm ?_
  have hevents := hperm.append_right use
  rwa [List.append_assoc] at hevents

/-- A handle that is opened and closed, by `Close` or by `Delete`. -/
theorem segment_used (fh : Nat) {e : HandleEvent} (he : e = .closed fh ∨ e = .consumed fh) :
    Segment fh (fh + 1) [.opened fh, e] false :=
  (Segment.nil (fh + 1)).around he

/-- A handle that is left open. -/
theorem segment_left (fh : Nat) : Segment fh (fh + 1) [.opened fh] true := Segment.left fh 1

end Open

/-! ## Every call -/

section OneFile

variable {fs : ScriptFile} {path : Text} {mode : UInt64} {o : Opening} {p : OpenedFile → Prop}

/-- Where the path does not open, all depends on the roots that are passed over. -/
theorem balanced_failed (h : fs.openFile 0 path mode 0 0 = .ok o) {status : EfiStatus}
    (hfile : o.file = .error status) :
    Balanced (o.events ++ closeFile none) ↔ WhenOpened (.ok fs) path mode p := by
  rw [closeFile, List.append_nil, ((openFile_spec h).failed status hfile).balanced_iff,
    decide_eq_false_iff_not, not_not]
  constructor
  · intro hstray
    refine ⟨hstray, fun file hopens => ?_⟩
    rcases (openFile_file h file).mp hopens with ⟨fh, hok⟩
    rw [hfile] at hok
    cases hok
  · exact fun hopened => hopened.1

/-- Where it opens, it depends on what is done with the handle as well. -/
theorem balanced_opened (h : fs.openFile 0 path mode 0 0 = .ok o) {fh m : Nat} {file : OpenedFile}
    (hfile : o.file = .ok (fh, file)) {use : List HandleEvent} {torn : Bool}
    (huse : Segment fh m (.opened fh :: use) torn) (hp : torn = false ↔ p file) :
    Balanced (o.events ++ use) ↔ WhenOpened (.ok fs) path mode p := by
  rw [((openFile_spec h).behind hfile huse).balanced_iff, Bool.or_eq_false_iff,
    decide_eq_false_iff_not, not_not, hp]
  refine and_congr_right fun _ => ?_
  constructor
  · intro hfilep file' hopens
    rcases (openFile_file h file').mp hopens with ⟨fh', hok⟩
    rw [hfile] at hok
    cases hok
    exact hfilep
  · exact fun hall => hall file ((openFile_file h file).mpr ⟨fh, hfile⟩)

end OneFile

theorem bind_ok {ε α β : Type} {x : Except ε α} {f : α → Except ε β} {b : β} :
    (x >>= f) = .ok b ↔ ∃ a, x = .ok a ∧ f a = .ok b := by
  cases x with
  | error e => simp [bind, Except.bind]
  | ok a => simp [bind, Except.bind]

theorem map_ok {ε α β : Type} {x : Except ε α} {f : α → β} {b : β} :
    f <$> x = .ok b ↔ ∃ a, x = .ok a ∧ f a = b := by
  cases x with
  | error e => simp
  | ok a => simp

theorem modOsRmdir_balanced_iff {sfp : Except EfiStatus ScriptFile} {path : Text}
    {r : OsStatus × List HandleEvent} (h : modOsRmdir sfp path = .ok r) :
    Balanced r.2 ↔ (OsCall.rmdir sfp path).Plain := by
  cases sfp with
  | error status =>
      cases h
      exact iff_of_true balanced_nil trivial
  | ok fs =>
      rcases bind_ok.mp h with ⟨o, ho, h⟩
      cases hfile : o.file with
      | error status =>
          rw [hfile] at h
          cases h
          exact balanced_failed ho hfile
      | ok opened =>
          rcases opened with ⟨fh, file⟩
          rw [hfile] at h
          cases h
          have hwalk := removeDir_spec (removeEntries_spec file.entries (fh + 1)) file.info
            file.delete
          exact balanced_opened ho hfile hwalk.1 Iff.rfl

theorem modOsRemove_balanced_iff {sfp : Except EfiStatus ScriptFile} {path : Text}
    {r : OsStatus × List HandleEvent} (h : modOsRemove sfp path = .ok r) :
    Balanced r.2 ↔ (OsCall.remove sfp path).Plain := by
  cases sfp with
  | error status =>
      cases h
      exact iff_of_true balanced_nil trivial
  | ok fs =>
      rcases bind_ok.mp h with ⟨o, ho, h⟩
      cases hfile : o.file with
      | error status =>
          rw [hfile] at h
          cases h
          exact balanced_failed ho hfile
      | ok opened =>
          rcases opened with ⟨fh, file⟩
          rw [hfile] at h
          have hclosed := segment_used fh (.inl rfl)
          dsimp only at h
          split at h
          · cases h
            exact balanced_opened ho hfile hclosed (iff_of_true rfl trivial)
          · split at h
            · cases h
              exact balanced_opened ho hfile hclosed (iff_of_true rfl trivial)
            · -- `Delete` has closed the handle
              cases h
              exact balanced_opened ho hfile (segment_used fh (.inr rfl)) (iff_of_true rfl trivial)

theorem modOsRename_balanced_iff {sfp : Except EfiStatus ScriptFile} {src dst : Text}
    {r : OsStatus × List HandleEvent} (h : modOsRename sfp src dst = .ok r) :
    Balanced r.2 ↔ (OsCall.rename sfp src dst).Plain := by
  cases sfp with
  | error status =>
      cases h
      exact iff_of_true balanced_nil trivial
  | ok fs =>
      rcases bind_ok.mp h with ⟨o, ho, h⟩
      cases hfile : o.file with
      | error status =>
          rw [hfile] at h
          cases h
          exact balanced_failed ho hfile
      | ok opened =>
          rcases opened with ⟨fh, file⟩
          rw [hfile] at h
          have hclosed := segment_used fh (.inl rfl)
          dsimp only at h
          split at h
          · cases h
            exact balanced_opened ho hfile hclosed (iff_of_true rfl trivial)
          · cases h
            exact balanced_opened ho hfile hclosed (iff_of_true rfl trivial)

theorem modOsStat_balanced_iff {sfp : Except EfiStatus ScriptFile} {heap : Bool} {path : Text}
    {r : StatResult × List HandleEvent} (h : modOsStat sfp heap path = .ok r) :
    Balanced r.2 ↔ (OsCall.stat sfp heap path).Plain := by
  cases sfp with
  | error status =>
      cases h
      exact iff_of_true balanced_nil trivial
  | ok fs =>
      rcases bind_ok.mp h with ⟨o, ho, h⟩
      cases hfile : o.file with
      | error status =>
          rw [hfile] at h
          cases h
          exact balanced_failed ho hfile
      | ok opened =>
          rcases opened with ⟨fh, file⟩
          rw [hfile] at h
          have hclosed := segment_used fh (.inl rfl)
          dsimp only at h
          split at h
          · next hinfo =>
              cases h
              exact balanced_opened ho hfile hclosed
                (iff_of_true rfl fun hsome => absurd hinfo hsome)
          · next info hinfo =>
              cases heap with
              | true =>
                  cases h
                  exact balanced_opened ho hfile hclosed (iff_of_true rfl fun _ => rfl)
              | false =>
                  -- the `MemoryError` leaves the handle open
                  cases h
                  have hsome : file.info ≠ none := by
                    rw [hinfo]
                    exact Option.some_ne_none info
                  have hleft := balanced_opened (p := fun file => file.info ≠ none → false = true) ho
                    hfile (segment_left fh) (iff_of_false (by simp)
                      fun hheap => Bool.false_ne_true (hheap hsome))
                  rw [List.append_nil] at hleft
                  exact hleft

theorem modOsMkdir_balanced_iff {sfp : Except EfiStatus ScriptFile} {path : Text}
    {r : OsStatus × List HandleEvent} (h : modOsMkdir sfp path = .ok r) :
    Balanced r.2 ↔ (OsCall.mkdir sfp path).Plain := by
  cases sfp with
  | error status =>
      cases h
      exact iff_of_true balanced_nil ⟨trivial, fun fs hfs => by cases hfs⟩
  | ok fs =>
      rcases bind_ok.mp h with ⟨o, ho, h⟩
      cases hfile : o.file with
      | ok opened =>
          rcases opened with ⟨fh, file⟩
          rw [hfile] at h
          cases h
          have hopens := (openFile_file ho file).mpr ⟨fh, hfile⟩
          refine (balanced_opened ho hfile (segment_used fh (.inl rfl))
            (iff_of_true rfl trivial)).trans (and_iff_left ?_).symm
          rintro fs' hfs hnone
          cases hfs
          exact absurd hopens (hnone file)
      | error status =>
          rw [hfile] at h
          rcases bind_ok.mp h with ⟨o', ho', h⟩
          have hfirst := (openFile_spec ho).failed status hfile
          have hplain : (OsCall.mkdir (.ok fs) path).Plain ↔
              fs.strays 0 path = [] ∧ fs.strays 1 path = [] := by
            -- the first open failed, so the second one is made
            have hnone : ∀ file, ¬ fs.Opens 0 path efiFileModeRead 0 file := by
              intro file hopens
              rcases (openFile_file ho file).mp hopens with ⟨fh, hok⟩
              rw [hfile] at hok
              cases hok
            constructor
            · rintro ⟨hopened, hagain⟩
              exact ⟨hopened.1, hagain fs rfl hnone⟩
            · rintro ⟨hstray, hstray'⟩
              refine ⟨⟨hstray, fun _ _ => trivial⟩, ?_⟩
              rintro fs' hfs -
              cases hfs
              exact hstray'
          rw [hplain]
          cases hfile' : o'.file with
          | ok opened =>
              rcases opened with ⟨fh, file⟩
              rw [hfile'] at h
              cases h
              have hsecond := (openFile_spec ho').behind hfile' (segment_used fh (.inl rfl))
              have hboth := (hfirst.append hsecond).balanced_iff
              simpa [closeFile] using hboth
          | error status' =>
              rw [hfile'] at h
              cases h
              have hsecond := (openFile_spec ho').failed status' hfile'
              have hboth := (hfirst.append hsecond).balanced_iff
              simpa [closeFile] using hboth

theorem modOsChdir_balanced_iff {sfp : Except EfiStatus ScriptFile} {path : Text}
    {r : OsStatus × Option Text × List HandleEvent} (h : modOsChdir sfp path = .ok r) :
    Balanced r.2.2 ↔ (OsCall.chdir sfp path).Plain := by
  cases sfp with
  | error status =>
      cases h
      exact iff_of_true balanced_nil trivial
  | ok fs =>
      rcases bind_ok.mp h with ⟨o, ho, h⟩
      cases hfile : o.file with
      | error status =>
          rw [hfile] at h
          cases h
          exact balanced_failed ho hfile
      | ok opened =>
          rcases opened with ⟨fh, file⟩
          rw [hfile] at h
          cases h
          exact balanced_opened ho hfile (segment_used fh (.inl rfl)) (iff_of_true rfl trivial)

/-- The loop of `mp_import_stat`: what it finds stays open, and it stops there. -/
theorem importStatLoop_segment {path : Text} (protocols : List ScriptFile) :
    ∀ {next : Nat} {r : ImportStat × List HandleEvent},
      importStatLoop path protocols next = .ok r →
      ∃ m torn, Segment next m r.2 torn ∧
        (torn = false ↔ (OsCall.importStat protocols path).Plain) := by
  induction protocols with
  | nil =>
      intro next r h
      cases h
      exact ⟨next, false, Segment.nil next, iff_of_true rfl fun fs hfs => by cases hfs⟩
  | cons fs rest ih =>
      intro next r h
      rcases bind_ok.mp h with ⟨o, ho, h⟩
      have hspec := openFile_spec ho
      have hplain : (OsCall.importStat (fs :: rest) path).Plain ↔
          (fs.strays 0 path = [] ∧
            ∀ file, fs.Opens 0 path efiFileModeRead 0 file → file.info = none) ∧
          (OsCall.importStat rest path).Plain := List.forall_mem_cons
      cases hfile : o.file with
      | error status =>
          rw [hfile] at h
          rcases bind_ok.mp h with ⟨r', hr', h⟩
          cases h
          rcases ih hr' with ⟨m, torn, hrest, htorn⟩
          refine ⟨m, _, (hspec.failed status hfile).append hrest, ?_⟩
          have hnone : ∀ file, fs.Opens 0 path efiFileModeRead 0 file → file.info = none := by
            intro file hopens
            rcases (openFile_file ho file).mp hopens with ⟨fh, hok⟩
            rw [hfile] at hok
            cases hok
          rw [hplain, Bool.or_eq_false_iff, htorn, decide_eq_false_iff_not, not_not,
            and_iff_left hnone]
      | ok opened =>
          rcases opened with ⟨fh, file⟩
          rw [hfile] at h
          have hopens := (openFile_file ho file).mpr ⟨fh, hfile⟩
          dsimp only at h
          split at h
          · next info hinfo =>
              -- found, and left open
              cases h
              have hleft := hspec.behind hfile (segment_left fh)
              rw [List.append_nil, Bool.or_true] at hleft
              refine ⟨_, true, hleft, iff_of_false (by simp) ?_⟩
              intro hall
              have hnone := (hplain.mp hall).1.2 file hopens
              rw [hinfo] at hnone
              cases hnone
          · next hinfo =>
              rcases bind_ok.mp h with ⟨r', hr', h⟩
              cases h
              rcases ih hr' with ⟨m, torn, hrest, htorn⟩
              have hnext := (hspec.opened fh file hfile).1
              have hused := hspec.behind hfile (segment_used fh (.inl rfl))
              rw [← hnext, Bool.or_false] at hused
              have hboth := hused.append hrest
              rw [List.append_assoc, List.singleton_append] at hboth
              refine ⟨m, _, hboth, ?_⟩
              have hnone : ∀ file', fs.Opens 0 path efiFileModeRead 0 file' → file'.info = none := by
                intro file' hopens'
                rcases (openFile_file ho file').mp hopens' with ⟨fh', hok⟩
                rw [hfile] at hok
                cases hok
                exact hinfo
              rw [hplain, Bool.or_eq_false_iff, htorn, decide_eq_false_iff_not, not_not,
                and_iff_left hnone]

theorem mpImportStat_balanced_iff {protocols : List ScriptFile} {path : Text}
    {r : ImportStat × List HandleEvent} (h : mpImportStat protocols path = .ok r) :
    Balanced r.2 ↔ (OsCall.importStat protocols path).Plain := by
  rcases importStatLoop_segment protocols h with ⟨m, torn, hsegment, htorn⟩
  rw [hsegment.balanced_iff, htorn]

/-- A call that returns or raises has closed each handle that was opened exactly once, just when no
root has been passed over, nothing that it is to delete resists, there is memory for its result, and
it finds nothing to import. -/
theorem handles_balanced_iff (call : OsCall) (evs : List HandleEvent) (h : call.events = .ok evs) :
    Balanced evs ↔ call.Plain := by
  cases call with
  | rmdir sfp path =>
      rcases map_ok.mp h with ⟨r, hr, rfl⟩
      exact modOsRmdir_balanced_iff hr
  | remove sfp path =>
      rcases map_ok.mp h with ⟨r, hr, rfl⟩
      exact modOsRemove_balanced_iff hr
  | rename sfp src dst =>
      rcases map_ok.mp h with ⟨r, hr, rfl⟩
      exact modOsRename_balanced_iff hr
  | stat sfp heap path =>
      rcases map_ok.mp h with ⟨r, hr, rfl⟩
      exact modOsStat_balanced_iff hr
  | mkdir sfp path =>
      rcases map_ok.mp h with ⟨r, hr, rfl⟩
      exact modOsMkdir_balanced_iff hr
  | chdir sfp path =>
      rcases map_ok.mp h with ⟨r, hr, rfl⟩
      exact modOsChdir_balanced_iff hr
  | importStat protocols path =>
      rcases map_ok.mp h with ⟨r, hr, rfl⟩
      exact mpImportStat_balanced_iff hr

/-! ## A directory and a labelled file -/

/-- The protocol on a machine, with what is told of the handle it returns. -/
def protocolOn (fw : Firmware) (file : OpenedFile) : ScriptFile where
  this := 1
  data := nvmeData
  firmware := fun _ => fw
  files := fun _ => directoryFiles
  answers := fun _ => file

/-- A directory without entries. -/
def emptyDirectory : OpenedFile where
  info := some ⟨efiFileDirectory, 0, text ['d']⟩
  entries := .done
  delete := .success
  setInfo := fun _ => .success

/-- A file. -/
def plainFile : OpenedFile where
  info := some ⟨0, 5, text ['f']⟩
  entries := .done
  delete := .success
  setInfo := fun _ => .success

/-- `os.rmdir` closes all that it opens of an empty directory; `os.remove ("\\LABEL:DATA\f")` leaves
the root open of the volume in front. -/
theorem labelled_file_leaves_root :
    Balanced [.opened 0, .opened 1, .closed 0, .consumed 1] ∧
      ¬ Balanced [.opened 0, .opened 1, .opened 2, .closed 1, .consumed 2] := by
  have hdirectory : (OsCall.rmdir (.ok (protocolOn nvmeFirmware emptyDirectory))
      (rootTypeLabel ++ text ['D', 'A', 'T', 'A', '\\', 'd'])).events =
      .ok [.opened 0, .opened 1, .closed 0, .consumed 1] := rfl
  have hlabelled : (OsCall.remove (.ok (protocolOn twoVolumes plainFile))
      (rootTypeLabel ++ text ['D', 'A', 'T', 'A', '\\', 'f'])).events =
      .ok [.opened 0, .opened 1, .opened 2, .closed 1, .consumed 2] := rfl
  constructor
  · refine (handles_balanced_iff _ _ hdirectory).mpr ⟨rfl, ?_⟩
    rintro file ⟨status, fh, evs, -, rfl⟩
    rfl
  · intro hbalanced
    have hstray := ((handles_balanced_iff _ _ hlabelled).mp hbalanced).1
    have hseven : (protocolOn twoVolumes plainFile).strays 0
        (rootTypeLabel ++ text ['D', 'A', 'T', 'A', '\\', 'f']) = [7] := rfl
    rw [hseven] at hstray
    cases hstray

/-- A directory with one file that is write-protected: deleting it comes to a warning. -/
def protectedFile : OpenedFile where
  info := some ⟨efiFileDirectory, 0, text ['d']⟩
  entries := .entry ⟨⟨1, 5, text ['f']⟩, .success, none, .warnDeleteFailure⟩ .done .done
  delete := .success
  setInfo := fun _ => .success

/-- `os.rmdir` on it closes the file after `Delete` has. -/
theorem protected_file_closed_twice :
    (OsCall.rmdir (.ok (protocolOn nvmeFirmware protectedFile))
        (rootTypeLabel ++ text ['D', 'A', 'T', 'A', '\\', 'd'])).events =
      .ok [.opened 0, .opened 1, .closed 0, .opened 2, .consumed 2, .closed 2, .closed 1] ∧
      ¬ Balanced [.opened 0, .opened 1, .closed 0, .opened 2, .consumed 2, .closed 2,
        .closed 1] := by
  refine ⟨rfl, fun h => ?_⟩
  have htwice := (h 2).2
  exact absurd htwice (by decide)

end EfiLvgl.Os
