import EfiLvgl.Lib.Run
import EfiLvgl.Usf.Open

/-!
# EfiLvgl.Usf.FileObject — file objects

`open` and `close` of `file.c`. A file object keeps a descriptor and a handle of its own.
A failing `open` leaves no trace, unless the path leads to a directory, or a search by
label passes over an opened volume (`failed_open_traceless`).
-/

namespace EfiLvgl.Usf

open EfiLvgl.Run EfiLvgl.Slots EfiLvgl.Mapping

/-! ## `open` and `close` -/

/-- `EFI_FILE_MODE_READ`, `EFI_FILE_MODE_WRITE`, `EFI_FILE_MODE_CREATE`. -/
def efiFileModeRead : UInt64 := 0x1
def efiFileModeWrite : UInt64 := 0x2
def efiFileModeCreate : UInt64 := 0x8000000000000000

/-- `EFI_FILE_DIRECTORY`. -/
def efiFileDirectory : UInt64 := 0x10

/-- `mp_obj_fdfile_t`; the type is `mp_type_fileio` or `mp_type_textio`. -/
structure FdFile where
  fileIo : Bool
  fd : Int
  fh : Option Ptr
  sfp : Option Ptr
  deriving DecidableEq, Repr

/-- A new object is cleared memory. -/
def FdFile.new (fileIo : Bool) : FdFile := ⟨fileIo, 0, none, none⟩

/-- What `fdfile_open` reads off the mode string. -/
structure OpenMode where
  mode : UInt64
  append : Bool
  truncate : Bool
  fileIo : Bool
  deriving DecidableEq, Repr

/-- One character of the mode string. -/
def OpenMode.read (m : OpenMode) (c : Char) : OpenMode :=
  let write := efiFileModeRead ||| efiFileModeWrite
  match c with
  | 'r' => { m with mode := m.mode ||| efiFileModeRead }
  | 'w' => { m with mode := m.mode ||| (write ||| efiFileModeCreate), truncate := true }
  | 'a' => { m with mode := m.mode ||| (write ||| efiFileModeCreate), append := true }
  | '+' => { m with mode := m.mode ||| write }
  | 'b' => { m with fileIo := true }
  | 't' => { m with fileIo := false }
  | _ => m

/-- The surroundings of one call: the firmware, its files, and the script file protocol
that `LocateProtocol` finds. -/
structure Machine where
  fw : Firmware
  files : Files
  scriptFile : Option Ptr

/-- `sfp_open_by_fd`. -/
def sfpOpenByFd (m : Machine) (s : UsfPrivateData) (self : FdFile) (fd : Int) :
    EfiStatus × FdFile :=
  match m.scriptFile with
  | none => (.notFound, self)
  | some sfp =>
      let (status, fh) := usfGetFileHandle s (some sfp) fd
      if status.isError then (status, { self with fh := fh })
      else (status, { self with fh := fh, fd := fd, sfp := some sfp })

/-- `sfp_open`. -/
def sfpOpen (m : Machine) (s : UsfPrivateData) (self : FdFile) (fname : Text) (mode : UInt64) :
    Except Stop (UsfPrivateData × EfiStatus × FdFile × List FileEvent) :=
  match m.scriptFile with
  | none => .ok (s, .notFound, self, [])
  | some sfp =>
      match usfOpen m.fw m.files s (some sfp) (some fname) mode 0 with
      | .error stop => .error stop
      | .ok (.success, some fh, evs) =>
          let (s', status, fd) := usfMap s (some sfp) (some fh)
          let self := { self with fh := some fh, sfp := some sfp, fd := fd.getD self.fd }
          if status.isError then .ok (s', status, self, evs ++ [.closed fh])
          else
            match m.files.getInfo fh with
            | none => .ok (s', .accessDenied, self, evs ++ [.closed fh])
            | some fileAttribute =>
                -- open() should not operate on folders
                if fileAttribute &&& efiFileDirectory ≠ 0 then
                  .ok (s', .accessDenied, self, evs ++ [.closed fh])
                else .ok (s', .success, self, evs)
      | .ok (status, _, evs) => .ok (s, status, self, evs)

/-- The first argument of `open`: a small integer, or a path. -/
inductive FileArg where
  | fd (fd : Int)
  | name (fname : Text)

/-- The parameter of `sfp_open_by_fd` is an `int`. -/
def toInt (fd : Int) : Int := Int.bmod fd (2 ^ 32)

/-- The end of `fdfile_open`: where to go on in a file that is not empty. -/
def seekOrTruncate (m : Machine) (mode : OpenMode) : Option Ptr → List FileEvent
  | none => []
  | some fh =>
      match m.files.getSize fh with
      | .error _ => []
      | .ok size =>
          if 0 < size then
            (if mode.append then [.positioned fh size] else []) ++
              (if mode.truncate then [.resized fh 0] else [])
          else []

/-- `fdfile_open` of a text file: no object means that `OSError` is raised. -/
def fdfileOpen (m : Machine) (s : UsfPrivateData) (file : FileArg) (mode_s : List Char) :
    Except Stop (UsfPrivateData × Option FdFile × List FileEvent) :=
  let mode := mode_s.foldl OpenMode.read ⟨0, false, false, false⟩
  let opened : Except Stop (UsfPrivateData × EfiStatus × FdFile × List FileEvent) :=
    match file with
    | .fd fd =>
        let (status, o) := sfpOpenByFd m s (FdFile.new mode.fileIo) (toInt fd)
        .ok (s, status, o, [])
    | .name fname => sfpOpen m s (FdFile.new mode.fileIo) fname mode.mode
  match opened with
  | .error stop => .error stop
  | .ok (s', status, o, evs) =>
      if status.isError then .ok (s', none, evs)
      else .ok (s', some o, evs ++ seekOrTruncate m mode o.fh)

/-- `fdfile_close`. -/
def fdfileClose (s : UsfPrivateData) (self : FdFile) : UsfPrivateData × FdFile × List FileEvent :=
  let s' := match self.sfp with
    | some sfp => (usfUnmap s (some sfp) self.fd).1
    | none => s
  (s', { self with fd := -1, fh := none, sfp := none }, (self.fh.map FileEvent.closed).toList)

/-! ## What `sfp_open` does -/

/-- The handle is that of a file: its info can be read and is not that of a directory. -/
def Files.IsFile (files : Files) (fh : Ptr) : Prop :=
  ∃ fileAttribute, files.getInfo fh = some fileAttribute ∧ fileAttribute &&& efiFileDirectory = 0

/-- The outcomes of `sfp_open`, by how far it gets. -/
inductive SfpOpened (m : Machine) (s : UsfPrivateData) (self : FdFile) (fname : Text)
    (mode : UInt64) : UsfPrivateData → EfiStatus → FdFile → List FileEvent → Prop where
  | absent : m.scriptFile = none → SfpOpened m s self fname mode s .notFound self []
  | notOpened {sfp status fh evs} : m.scriptFile = some sfp →
      usfOpen m.fw m.files s (some sfp) (some fname) mode 0 = .ok (status, fh, evs) →
      (status = .success → fh = none) → SfpOpened m s self fname mode s status self evs
  | noDescriptor {sfp fh evs} : m.scriptFile = some sfp →
      usfOpen m.fw m.files s (some sfp) (some fname) mode 0 = .ok (.success, some fh, evs) →
      firstFree s.filePool 3 = none →
      SfpOpened m s self fname mode s .notFound
        { self with fh := some fh, sfp := some sfp, fd := -1 } (evs ++ [.closed fh])
  | noFile {sfp fh evs index} : m.scriptFile = some sfp →
      usfOpen m.fw m.files s (some sfp) (some fname) mode 0 = .ok (.success, some fh, evs) →
      firstFree s.filePool 3 = some index → ¬ m.files.IsFile fh →
      SfpOpened m s self fname mode { s with filePool := put s.filePool index fh } .accessDenied
        { self with fh := some fh, sfp := some sfp, fd := index.val } (evs ++ [.closed fh])
  | file {sfp fh evs index} : m.scriptFile = some sfp →
      usfOpen m.fw m.files s (some sfp) (some fname) mode 0 = .ok (.success, some fh, evs) →
      firstFree s.filePool 3 = some index → m.files.IsFile fh →
      SfpOpened m s self fname mode { s with filePool := put s.filePool index fh } .success
        { self with fh := some fh, sfp := some sfp, fd := index.val } evs

/-- The one case analysis of `sfp_open`. -/
theorem sfpOpen_cases {m : Machine} {s s' : UsfPrivateData} {self self' : FdFile} {fname : Text}
    {mode : UInt64} {status : EfiStatus} {evs : List FileEvent}
    (h : sfpOpen m s self fname mode = .ok (s', status, self', evs)) :
    SfpOpened m s self fname mode s' status self' evs := by
  unfold sfpOpen at h
  split at h
  · next hsfp =>
      cases h
      exact .absent hsfp
  · next sfp hsfp =>
      split at h
      · cases h
      · -- opened: a descriptor, then a look at what it is
        next fh evs' hopen =>
          cases hfree : firstFree s.filePool 3 with
          | none =>
              simp only [usfMap, hfree] at h
              cases h
              exact .noDescriptor hsfp hopen hfree
          | some index =>
              simp only [usfMap, hfree] at h
              split at h
              · next herror => cases herror
              · split at h
                · next hinfo =>
                    cases h
                    refine .noFile hsfp hopen hfree ?_
                    rintro ⟨a, ha, -⟩
                    rw [hinfo] at ha
                    cases ha
                · next fileAttribute hinfo =>
                    split at h
                    · next hdir =>
                        cases h
                        refine .noFile hsfp hopen hfree ?_
                        rintro ⟨a, ha, hzero⟩
                        rw [hinfo] at ha
                        cases ha
                        exact hdir hzero
                    · next hdir =>
                        cases h
                        exact .file hsfp hopen hfree ⟨fileAttribute, hinfo, not_not.mp hdir⟩
      · next status' fh evs' hnot hopen =>
          cases h
          refine .notOpened hsfp hopen ?_
          rintro rfl
          cases fh with
          | none => rfl
          | some fh => exact absurd rfl (hnot fh rfl)

theorem sfpOpen_ok {m : Machine} {s : UsfPrivateData} (self : FdFile) {fname : Text}
    {mode : UInt64} {sfp : Ptr} (hsfp : m.scriptFile = some sfp) {status : EfiStatus}
    {fh : Option Ptr} {evs : List FileEvent}
    (h : usfOpen m.fw m.files s (some sfp) (some fname) mode 0 = .ok (status, fh, evs)) :
    ∃ s' status' self' evs', sfpOpen m s self fname mode = .ok (s', status', self', evs') := by
  rw [sfpOpen, hsfp]
  simp only [h]
  split
  · next hok => cases hok
  · split
    · exact ⟨_, _, _, _, rfl⟩
    · split
      · exact ⟨_, _, _, _, rfl⟩
      · split
        · exact ⟨_, _, _, _, rfl⟩
        · exact ⟨_, _, _, _, rfl⟩
  · exact ⟨_, _, _, _, rfl⟩

/-! ## A failing `open` -/

/-- `open` with a path. -/
structure OpenCall where
  machine : Machine
  fname : Text
  mode_s : List Char

def OpenCall.run (s : UsfPrivateData) (call : OpenCall) :
    Except Stop (UsfPrivateData × Option FdFile × List FileEvent) :=
  fdfileOpen call.machine s (.name call.fname) call.mode_s

/-- What the mode string says. -/
def OpenCall.openMode (call : OpenCall) : OpenMode :=
  call.mode_s.foldl OpenMode.read ⟨0, false, false, false⟩

/-- `UsfOpen` as `sfp_open` calls it. -/
def OpenCall.opens (s : UsfPrivateData) (call : OpenCall) (sfp : Ptr) :
    Except Stop (EfiStatus × Option Ptr × List FileEvent) :=
  usfOpen call.machine.fw call.machine.files s (some sfp) (some call.fname) call.openMode.mode 0

/-- When the call raises an exception, the table is as before, and every handle has been
closed as often as it has been opened. -/
def LeavesNoTrace (s : UsfPrivateData) (call : OpenCall) : Prop :=
  ∀ s' evs, call.run s = .ok (s', none, evs) →
    s'.filePool = s.filePool ∧ ∀ file, net file evs = 0

/-- What is opened under a free descriptor is a file; and no root is passed over in a
search by label, unless there is something to open and a descriptor for it. -/
structure ClosesUp (s : UsfPrivateData) (call : OpenCall) : Prop where
  isFile : ∀ sfp fh evs, call.machine.scriptFile = some sfp →
    call.opens s sfp = .ok (.success, some fh, evs) → firstFree s.filePool 3 ≠ none →
      call.machine.files.IsFile fh
  noStray : ∀ sfp status fh evs, call.machine.scriptFile = some sfp →
    call.opens s sfp = .ok (status, fh, evs) →
      strayOf call.machine.fw s call.fname = [] ∨
        (status = .success ∧ (fh = none ∨ firstFree s.filePool 3 ≠ none))

/-- An exception is an error status of `sfp_open`. -/
theorem raises_iff {s s' : UsfPrivateData} {call : OpenCall} {evs : List FileEvent} :
    call.run s = .ok (s', none, evs) ↔ ∃ status o, status.isError = true ∧
      sfpOpen call.machine s (FdFile.new call.openMode.fileIo) call.fname call.openMode.mode =
        .ok (s', status, o, evs) := by
  rw [OpenCall.run, fdfileOpen]
  simp only [OpenCall.openMode]
  constructor
  · intro h
    split at h
    · cases h
    · next s₁ status o evs₁ hopened =>
        split at h
        · next herror =>
            cases h
            exact ⟨status, o, herror, hopened⟩
        · cases h
  · rintro ⟨status, o, herror, hopened⟩
    rw [hopened]
    simp only [herror, if_true]

/-- A handle that has been opened and closed at once, and the roots that stay open. -/
theorem net_closed {stray : List Ptr} {status : EfiStatus} {fh : Ptr} {evs : List FileEvent}
    (h : RootOpened stray status (some fh) evs) (file : Ptr) :
    net file (evs ++ [.closed fh]) = stray.count file := by
  rw [net_append, h.opened file]
  by_cases hfile : fh = file
  · simp [hfile]
  · simp [hfile]

/-- With an error status no handle is returned. -/
theorem RootOpened.net_of_error {stray : List Ptr} {status : EfiStatus} {fh : Option Ptr}
    {evs : List FileEvent} (h : RootOpened stray status fh evs) (hne : status ≠ .success)
    (file : Ptr) : net file evs = stray.count file := by
  cases fh with
  | none => simp [h.opened file]
  | some f => exact absurd (h.success f rfl) hne

/-- The descriptor of a directory stays reserved, so that none has been opened. -/
theorem LeavesNoTrace.isFile {s : UsfPrivateData} {call : OpenCall} (h : LeavesNoTrace s call)
    {sfp fh : Ptr} {evs : List FileEvent} (hsfp : call.machine.scriptFile = some sfp)
    (hopen : call.opens s sfp = .ok (.success, some fh, evs)) (hfree : firstFree s.filePool 3 ≠ none) :
    call.machine.files.IsFile fh := by
  by_contra hfile
  obtain ⟨s', status, o, evs', hrun⟩ := sfpOpen_ok (FdFile.new call.openMode.fileIo) hsfp hopen
  have hcases := sfpOpen_cases hrun
  rw [OpenCall.opens] at hopen
  cases hcases with
  | absent hnone => simp [hsfp] at hnone
  | notOpened hsfp' hopen' hnone =>
      cases hsfp.symm.trans hsfp'
      cases hopen.symm.trans hopen'
      exact absurd (hnone rfl) (by simp)
  | noDescriptor hsfp' hopen' hfull => exact hfree hfull
  | @noFile sfp' fh' evs₁ index hsfp' hopen' hindex hnot =>
      -- the entry of the descriptor was free before the call
      have htable := (h _ _ (raises_iff.mpr ⟨_, _, rfl, hrun⟩)).1
      have hslot : put s.filePool index fh' index = s.filePool index := congrFun htable index
      rw [firstFree_free hindex] at hslot
      simp at hslot
  | file hsfp' hopen' hindex hfile' =>
      cases hsfp.symm.trans hsfp'
      cases hopen.symm.trans hopen'
      exact hfile hfile'

/-- A root that has been passed over stays open, so that an exception has none. -/
theorem LeavesNoTrace.noStray {s : UsfPrivateData} {call : OpenCall} (h : LeavesNoTrace s call)
    {sfp : Ptr} {status : EfiStatus} {fh : Option Ptr} {evs : List FileEvent}
    (hsfp : call.machine.scriptFile = some sfp) (hopen : call.opens s sfp = .ok (status, fh, evs)) :
    strayOf call.machine.fw s call.fname = [] ∨
      (status = .success ∧ (fh = none ∨ firstFree s.filePool 3 ≠ none)) := by
  by_contra hcontra
  rw [not_or] at hcontra
  obtain ⟨hstray, hnot⟩ := hcontra
  have hopened := usfOpen_opened hopen
  obtain ⟨root, hroot⟩ := count_head_ne_zero hstray
  obtain ⟨s', status', o, evs', hrun⟩ := sfpOpen_ok (FdFile.new call.openMode.fileIo) hsfp hopen
  have hcases := sfpOpen_cases hrun
  rw [OpenCall.opens] at hopen
  cases hcases with
  | absent hnone => simp [hsfp] at hnone
  | notOpened hsfp' hopen' hnone =>
      cases hsfp.symm.trans hsfp'
      cases hopen.symm.trans hopen'
      have hne : status ≠ .success := fun hs => hnot ⟨hs, Or.inl (hnone hs)⟩
      have herror : status.isError = true := by simpa [EfiStatus.isError] using hne
      have hnet := (h _ _ (raises_iff.mpr ⟨_, _, herror, hrun⟩)).2 root
      rw [hopened.net_of_error hne root] at hnet
      exact hroot hnet
  | noDescriptor hsfp' hopen' hfull =>
      -- the handle is closed, the root is not
      cases hsfp.symm.trans hsfp'
      cases hopen.symm.trans hopen'
      have hnet := (h _ _ (raises_iff.mpr ⟨_, _, rfl, hrun⟩)).2 root
      rw [net_closed hopened root] at hnet
      exact hroot hnet
  | noFile hsfp' hopen' hindex hfile =>
      cases hsfp.symm.trans hsfp'
      cases hopen.symm.trans hopen'
      apply hnot
      exact ⟨rfl, Or.inr (by simp [hindex])⟩
  | file hsfp' hopen' hindex hfile =>
      cases hsfp.symm.trans hsfp'
      cases hopen.symm.trans hopen'
      apply hnot
      exact ⟨rfl, Or.inr (by simp [hindex])⟩

theorem closesUp_of_leavesNoTrace {s : UsfPrivateData} {call : OpenCall}
    (h : LeavesNoTrace s call) : ClosesUp s call := by
  constructor
  · intro sfp fh evs hsfp hopen hfree
    exact h.isFile hsfp hopen hfree
  · intro sfp status fh evs hsfp hopen
    exact h.noStray hsfp hopen

theorem leavesNoTrace_of_closesUp {s : UsfPrivateData} {call : OpenCall} (h : ClosesUp s call) :
    LeavesNoTrace s call := by
  intro s' evs hraises
  obtain ⟨status, o, herror, hrun⟩ := raises_iff.mp hraises
  cases sfpOpen_cases hrun with
  | absent hnone => exact ⟨rfl, fun _ => rfl⟩
  | notOpened hsfp hopen hnone =>
      have hne : status ≠ .success := by simpa [EfiStatus.isError] using herror
      have hstray := (h.noStray _ _ _ _ hsfp hopen).resolve_right (fun hs => hne hs.1)
      refine ⟨rfl, fun file => ?_⟩
      rw [(usfOpen_opened hopen).net_of_error hne file, hstray]
      rfl
  | noDescriptor hsfp hopen hfull =>
      have hstray := (h.noStray _ _ _ _ hsfp hopen).resolve_right (by simp [hfull])
      refine ⟨rfl, fun file => ?_⟩
      rw [net_closed (usfOpen_opened hopen) file, hstray]
      rfl
  | noFile hsfp hopen hindex hfile =>
      exact absurd (h.isFile _ _ _ hsfp hopen (by simp [hindex])) hfile
  | file hsfp hopen hindex hfile => cases herror

/-- Failing calls, one after the other. -/
def openStep (s : UsfPrivateData) (call : OpenCall) : Option (UsfPrivateData × List FileEvent) :=
  match call.run s with
  | .ok (s', none, evs) => some (s', evs)
  | _ => none

/-- A failing call leaves no trace exactly if it closes up what it has opened; and any
number of such calls leaves the table as it was, so that they never exhaust it. -/
theorem failed_open_traceless (s : UsfPrivateData) (call : OpenCall) :
    (LeavesNoTrace s call ↔ ClosesUp s call) ∧
    ∀ s' h, Reach openStep ClosesUp s s' h →
      s'.filePool = s.filePool ∧ ∀ file, net file h = 0 := by
  refine ⟨⟨closesUp_of_leavesNoTrace, leavesNoTrace_of_closesUp⟩, ?_⟩
  intro s' h hr
  refine hr.invariant (fun s' h => s'.filePool = s.filePool ∧ ∀ file, net file h = 0) ?_ ?_
  · exact ⟨rfl, fun _ => rfl⟩
  · intro s₁ s₂ h evs call hinv hok hstep
    rw [openStep] at hstep
    split at hstep
    · next hrun =>
        cases hstep
        obtain ⟨htable, hnet⟩ := leavesNoTrace_of_closesUp hok _ _ hrun
        refine ⟨htable.trans hinv.1, fun file => ?_⟩
        rw [net_append, hinv.2 file, hnet file]
        rfl
    · cases hstep

/-- Handle 9 is a file. -/
def plainFiles : Files := { directoryFiles with getInfo := fun _ => some 0 }

/-- `open ("\\\\:HD0b:\\d", "r")`, where `d` is a directory. -/
def openDirectory : OpenCall where
  machine := ⟨nvmeFirmware, directoryFiles, some 1⟩
  fname := text ['\\', '\\', ':', 'H', 'D', '0', 'b', ':', '\\', 'd']
  mode_s := ['r']

/-- What a failing call leaves in the entry of descriptor 3. -/
def failedEntry (s : UsfPrivateData) (call : OpenCall) : Option (Option Ptr) :=
  match call.run s with
  | .ok (s', none, _) => some (s'.filePool 3)
  | _ => none

/-- Not every failing call leaves no trace: the descriptor of a directory stays reserved. -/
theorem open_directory_leaks_descriptor :
    ¬ ∀ (s : UsfPrivateData) (call : OpenCall), LeavesNoTrace s call := by
  intro hclaim
  have hentry : failedEntry nvmeData openDirectory = some (some 9) := by decide +kernel
  rw [failedEntry] at hentry
  split at hentry
  · next s' evs hrun =>
      rw [(hclaim _ _ s' evs hrun).1, Option.some.injEq] at hentry
      exact absurd hentry (by decide)
  · cases hentry

end EfiLvgl.Usf
