import EfiLvgl.Usf.FileObject

/-!
# EfiLvgl.Usf.Seek — `seek` and `tell` of a file object

`fdfile_ioctl` of `file.c` under the stream layer of `stream.c`. Offsets are `INT64` and positions
`UINT64`; the sum wraps around. The file goes where it is sent (`seek_moves`), but what is handed
back is 0 in every case: `seek_reports_iff` says when that is the position.
-/

namespace EfiLvgl.Usf

/-! ## The stream layer's requests -/

def mpStreamFlush : Nat := 1
def mpStreamSeek : Nat := 2

/-- `MP_STREAM_ERROR`. -/
def mpStreamError : UInt64 := 0xFFFFFFFFFFFFFFFF

def seekSet : Int32 := 0
def seekCur : Int32 := 1
def seekEnd : Int32 := 2

/-- `mp_stream_seek_t`. -/
structure StreamSeek where
  offset : Int64
  whence : Int32
  deriving DecidableEq

/-- What is stored to `*errcode`: a status, or one of `EINVAL`. -/
inductive ErrCode where
  | status (status : EfiStatus)
  | einval
  deriving DecidableEq

/-- The library's functions on an open file, `σ` being the state of all files. `position` is where
the next byte is read or written, `size` how many there are. -/
structure FileHandleLib (σ : Type) where
  position : σ → Ptr → UInt64
  size : σ → Ptr → UInt64
  getPosition : σ → Ptr → EfiStatus × UInt64
  getSize : σ → Ptr → EfiStatus × UInt64
  setPosition : σ → Ptr → UInt64 → EfiStatus × σ
  flush : σ → Ptr → EfiStatus × σ
  getPosition_eq : ∀ files fh, (getPosition files fh).1 = .success →
    (getPosition files fh).2 = position files fh
  getSize_eq : ∀ files fh, (getSize files fh).1 = .success → (getSize files fh).2 = size files fh
  /-- The largest position stands for the end of the file. -/
  position_setPosition : ∀ files fh pos, (setPosition files fh pos).1 = .success →
    position (setPosition files fh pos).2 fh =
      if pos = 0xFFFFFFFFFFFFFFFF then size files fh else pos
  position_of_error : ∀ files fh pos, (setPosition files fh pos).1 ≠ .success →
    position (setPosition files fh pos).2 fh = position files fh

/-! ## `fdfile_ioctl` -/

/-- `IS_STD_FILE`. -/
def FdFile.isStdFile (o : FdFile) : Bool := o.fd = 0 || o.fd = 1 || o.fd = 2

/-- The handle the functions of `file.c` work on: that of the object, or for one of the standard
files that of its descriptor, filled into `stdio`. `check_fd_is_open` raises `ValueError` where
there is none. -/
def openHandle (m : Machine) (data : UsfPrivateData) (stdio o : FdFile) : Option Ptr :=
  let o := if o.isStdFile then (sfpOpenByFd m data stdio o.fd).2 else o
  if o.fd < 0 ∨ o.fh = none ∨ o.sfp = none then none else o.fh

/-- What a request leaves behind: the value returned, `*errcode`, the argument and the files. -/
structure IoctlResult (σ : Type) where
  ret : UInt64
  errcode : Option ErrCode
  seek : StreamSeek
  files : σ

variable {σ : Type}

/-- The switch over `s->whence`. -/
def seekPosition (lib : FileHandleLib σ) (files : σ) (fh : Ptr) (s : StreamSeek) :
    EfiStatus × UInt64 :=
  if s.whence = seekSet then (.success, s.offset.toUInt64)
  else if s.whence = seekCur then
    let (status, pos) := lib.getPosition files fh
    (status, if status.isError then pos else pos + s.offset.toUInt64)
  else if s.whence = seekEnd then
    let (status, pos) := lib.getSize files fh
    (status, if status.isError then pos else pos + s.offset.toUInt64)
  else (.invalidParameter, 0)

/-- `case MP_STREAM_SEEK`. -/
def ioctlSeek (lib : FileHandleLib σ) (files : σ) (fh : Ptr) (s : StreamSeek) : IoctlResult σ :=
  let (status, pos) := seekPosition lib files fh s
  let (status, files) := if status.isError then (status, files) else lib.setPosition files fh pos
  if status.isError then ⟨mpStreamError, some (.status status), s, files⟩
  else ⟨0, none, { s with offset := 0 }, files⟩

/-- `case MP_STREAM_FLUSH`. -/
def ioctlFlush (lib : FileHandleLib σ) (files : σ) (fh : Ptr) (s : StreamSeek) : IoctlResult σ :=
  let (status, files) := lib.flush files fh
  if status.isError then ⟨mpStreamError, some (.status status), s, files⟩
  else ⟨0, none, s, files⟩

/-- The surroundings of a call on a file object; `stdio` is not initialised. -/
structure FileContext (σ : Type) where
  lib : FileHandleLib σ
  m : Machine
  data : UsfPrivateData
  stdio : FdFile

/-- `fdfile_ioctl`; nothing stands for a `ValueError`. -/
def fdfileIoctl (c : FileContext σ) (o : FdFile) (files : σ) (request : Nat) (arg : StreamSeek) :
    Option (IoctlResult σ) :=
  (openHandle c.m c.data c.stdio o).map fun fh =>
    if request = mpStreamSeek then ioctlSeek c.lib files fh arg
    else if request = mpStreamFlush then ioctlFlush c.lib files fh arg
    else ⟨mpStreamError, some .einval, arg, files⟩

/-! ## `seek` and `tell` -/

/-- What `seek` raises. -/
inductive SeekError where
  | valueError
  | osError (errcode : Option ErrCode)

/-- `stream_seek`: the integer that is returned, and the files. -/
def streamSeek (c : FileContext σ) (o : FdFile) (files : σ) (s : StreamSeek) :
    Except SeekError (UInt64 × σ) :=
  if s.whence = seekSet ∧ s.offset < 0 then .error (.osError (some .einval))
  else
    match fdfileIoctl c o files mpStreamSeek s with
    | none => .error .valueError
    | some r =>
        if r.ret = mpStreamError then .error (.osError r.errcode)
        else .ok (r.seek.offset.toUInt64, r.files)

/-- `stream_tell`. -/
def streamTell (c : FileContext σ) (o : FdFile) (files : σ) : Except SeekError (UInt64 × σ) :=
  streamSeek c o files ⟨0, seekCur⟩

/-! ## Where a file is sent -/

/-- What the offset counts from. -/
def seekBase (lib : FileHandleLib σ) (files : σ) (fh : Ptr) (whence : Int32) : Nat :=
  if whence = seekSet then 0
  else if whence = seekCur then (lib.position files fh).toNat
  else (lib.size files fh).toNat

/-- The resulting position. -/
def seekTarget (lib : FileHandleLib σ) (files : σ) (fh : Ptr) (s : StreamSeek) : Int :=
  seekBase lib files fh s.whence + s.offset.toInt

/-- The look-up of the base succeeds, and so does `SetPosition`. -/
def SeekSucceeds (lib : FileHandleLib σ) (files : σ) (fh : Ptr) (s : StreamSeek) : Prop :=
  (seekPosition lib files fh s).1 = .success ∧
    (lib.setPosition files fh (seekPosition lib files fh s).2).1 = .success

/-- A seek moves the file to the resulting position and hands it back, through `s->offset` and as
the result of `seek`; one that fails leaves the file where it is. -/
structure SeekReports (c : FileContext σ) (o : FdFile) (files : σ) (fh : Ptr) (s : StreamSeek) :
    Prop where
  moved : SeekSucceeds c.lib files fh s → 0 ≤ seekTarget c.lib files fh s →
    ∃ r, fdfileIoctl c o files mpStreamSeek s = some r ∧ r.ret = 0 ∧
      ((c.lib.position r.files fh).toNat : Int) = seekTarget c.lib files fh s ∧
      (r.seek.offset.toUInt64.toNat : Int) = seekTarget c.lib files fh s
  returned : SeekSucceeds c.lib files fh s → 0 ≤ seekTarget c.lib files fh s →
    ∃ pos files', streamSeek c o files s = .ok (pos, files') ∧
      (pos.toNat : Int) = seekTarget c.lib files fh s
  failed : ¬ SeekSucceeds c.lib files fh s →
    ∃ r, fdfileIoctl c o files mpStreamSeek s = some r ∧ r.ret = mpStreamError ∧
      c.lib.position r.files fh = c.lib.position files fh

section Seek

variable {c : FileContext σ} {o : FdFile} {files : σ} {fh : Ptr} {s : StreamSeek}

/-- An offset is added with wrap-around. -/
theorem toNat_add_offset (base : UInt64) (offset : Int64) :
    ((base + offset.toUInt64).toNat : Int) = (base.toNat + offset.toInt) % 2 ^ 64 := by
  -- a negative offset is added as its two's complement
  have hoffset : (offset.toUInt64.toNat : Int) % 2 ^ 64 = offset.toInt % 2 ^ 64 := by
    have hbmod : offset.toInt = Int.bmod offset.toUInt64.toNat (2 ^ 64) :=
      BitVec.toInt_eq_toNat_bmod offset.toBitVec
    rw [hbmod]
    exact (Int.bmod_emod).symm
  rw [UInt64.toNat_add, Int.natCast_emod, Int.natCast_add, Int.add_emod, Nat.cast_pow,
    Nat.cast_ofNat, hoffset, ← Int.add_emod]

/-- `SetPosition` is handed the resulting position with wrap-around. -/
theorem seekPosition_eq (h : (seekPosition c.lib files fh s).1 = .success) :
    ((seekPosition c.lib files fh s).2.toNat : Int) = seekTarget c.lib files fh s % 2 ^ 64 := by
  unfold seekTarget seekBase
  unfold seekPosition at h ⊢
  by_cases hset : s.whence = seekSet
  · simp only [hset, if_true] at h ⊢
    have hzero := toNat_add_offset 0 s.offset
    rw [UInt64.zero_add] at hzero
    exact hzero
  · -- the other two look their base up, and stop when there is none
    by_cases hcur : s.whence = seekCur
    · simp only [hcur, if_true, if_neg (by decide : ¬ seekCur = seekSet)] at h ⊢
      simp only [h, EfiStatus.isError, ne_eq, not_true_eq_false, decide_false, Bool.false_eq_true,
        if_false, c.lib.getPosition_eq files fh h]
      exact toNat_add_offset _ s.offset
    · by_cases hend : s.whence = seekEnd
      · simp only [hend, if_true, if_neg (by decide : ¬ seekEnd = seekSet),
          if_neg (by decide : ¬ seekEnd = seekCur)] at h ⊢
        simp only [h, EfiStatus.isError, ne_eq, not_true_eq_false, decide_false, Bool.false_eq_true,
          if_false, c.lib.getSize_eq files fh h]
        exact toNat_add_offset _ s.offset
      · simp [hset, hcur, hend] at h

/-- A seek that gets through. -/
theorem ioctlSeek_of_succeeds (h : SeekSucceeds c.lib files fh s) :
    ioctlSeek c.lib files fh s = ⟨0, none, { s with offset := 0 },
      (c.lib.setPosition files fh (seekPosition c.lib files fh s).2).2⟩ := by
  simp [ioctlSeek, h.1, h.2, EfiStatus.isError]

/-- One that fails, in one of its two steps. -/
theorem ioctlSeek_of_fails (h : ¬ SeekSucceeds c.lib files fh s) :
    (ioctlSeek c.lib files fh s).ret = mpStreamError ∧
      c.lib.position (ioctlSeek c.lib files fh s).files fh = c.lib.position files fh := by
  by_cases hbase : (seekPosition c.lib files fh s).1 = .success
  · have hset : (c.lib.setPosition files fh (seekPosition c.lib files fh s).2).1 ≠ .success :=
      fun hset => h ⟨hbase, hset⟩
    have heq : ioctlSeek c.lib files fh s = ⟨mpStreamError,
        some (.status (c.lib.setPosition files fh (seekPosition c.lib files fh s).2).1), s,
        (c.lib.setPosition files fh (seekPosition c.lib files fh s).2).2⟩ := by
      simp [ioctlSeek, hbase, hset, EfiStatus.isError]
    rw [heq]
    exact ⟨rfl, c.lib.position_of_error files fh _ hset⟩
  · have heq : ioctlSeek c.lib files fh s =
        ⟨mpStreamError, some (.status (seekPosition c.lib files fh s).1), s, files⟩ := by
      simp [ioctlSeek, hbase, EfiStatus.isError]
    rw [heq]
    exact ⟨rfl, rfl⟩

theorem fdfileIoctl_seek (ho : openHandle c.m c.data c.stdio o = some fh) (s : StreamSeek) :
    fdfileIoctl c o files mpStreamSeek s = some (ioctlSeek c.lib files fh s) := by
  simp [fdfileIoctl, ho]

/-- A seek gets the file to the resulting position, if that is one. -/
theorem seek_moves (h : SeekSucceeds c.lib files fh s)
    (hnonneg : 0 ≤ seekTarget c.lib files fh s)
    (hlt : seekTarget c.lib files fh s < 0xFFFFFFFFFFFFFFFF) :
    ((c.lib.position (ioctlSeek c.lib files fh s).files fh).toNat : Int) =
      seekTarget c.lib files fh s := by
  have hpos : ((seekPosition c.lib files fh s).2.toNat : Int) = seekTarget c.lib files fh s := by
    rw [seekPosition_eq h.1]
    exact Int.emod_eq_of_lt hnonneg (by omega)
  -- the largest position would stand for the end of the file
  have hlast : (seekPosition c.lib files fh s).2 ≠ 0xFFFFFFFFFFFFFFFF := by
    intro heq
    rw [heq] at hpos
    have hvalue : ((0xFFFFFFFFFFFFFFFF : UInt64).toNat : Int) = 0xFFFFFFFFFFFFFFFF := rfl
    omega
  rw [ioctlSeek_of_succeeds h, c.lib.position_setPosition files fh _ h.2, if_neg hlast]
  exact hpos

/-- `seek` returns 0 or raises. -/
theorem streamSeek_returns_zero {pos : UInt64} {files' : σ}
    (h : streamSeek c o files s = .ok (pos, files')) : pos = 0 := by
  unfold streamSeek at h
  split at h
  · cases h
  · split at h
    · cases h
    · rename_i r hr
      split at h
      · cases h
      · rename_i hret
        rw [fdfileIoctl, Option.map_eq_some_iff] at hr
        rcases hr with ⟨fh, -, rfl⟩
        simp only [if_true] at hret h
        by_cases hs : SeekSucceeds c.lib files fh s
        · -- the integer is made of the offset, which is 0 by now
          rw [ioctlSeek_of_succeeds hs] at h
          cases h
          rfl
        · exact absurd (ioctlSeek_of_fails hs).1 hret

/-- So does `tell`, wherever the file is. -/
theorem streamTell_returns_zero {pos : UInt64} {files' : σ}
    (h : streamTell c o files = .ok (pos, files')) : pos = 0 :=
  streamSeek_returns_zero h

/-- A file is not negative many bytes from its start. -/
theorem not_negative_of_target (h : 0 ≤ seekTarget c.lib files fh s) :
    ¬ (s.whence = seekSet ∧ s.offset < 0) := by
  rintro ⟨hset, hneg⟩
  have hbase : seekBase c.lib files fh s.whence = 0 := by simp [seekBase, hset]
  have hoffset : s.offset.toInt < 0 := Int64.lt_iff_toInt_lt.mp hneg
  unfold seekTarget at h
  omega

/-- What is handed back is the position just when a seek that gets through goes to the start of the
file. -/
theorem seek_reports_iff (c : FileContext σ) (o : FdFile) (files : σ) (fh : Ptr) (s : StreamSeek)
    (ho : openHandle c.m c.data c.stdio o = some fh) :
    SeekReports c o files fh s ↔
      (SeekSucceeds c.lib files fh s → 0 ≤ seekTarget c.lib files fh s →
        seekTarget c.lib files fh s = 0) := by
  constructor
  · intro h hs hnonneg
    rcases h.moved hs hnonneg with ⟨r, hr, -, -, hoffset⟩
    rw [fdfileIoctl_seek ho, ioctlSeek_of_succeeds hs] at hr
    cases hr
    exact hoffset.symm
  · intro hzero
    refine ⟨fun hs hnonneg => ?_, fun hs hnonneg => ?_, fun hs => ?_⟩
    · have htarget := hzero hs hnonneg
      refine ⟨ioctlSeek c.lib files fh s, fdfileIoctl_seek ho s, ?_, ?_, ?_⟩
      · rw [ioctlSeek_of_succeeds hs]
      · exact seek_moves hs hnonneg (by omega)
      · rw [ioctlSeek_of_succeeds hs, htarget]
        rfl
    · refine ⟨0, (c.lib.setPosition files fh (seekPosition c.lib files fh s).2).2, ?_, ?_⟩
      · rw [streamSeek, if_neg (not_negative_of_target hnonneg), fdfileIoctl_seek ho,
          ioctlSeek_of_succeeds hs]
        rfl
      · rw [hzero hs hnonneg]
        rfl
    · exact ⟨_, fdfileIoctl_seek ho s, ioctlSeek_of_fails hs⟩

end Seek

/-- One file, with its position and its size. -/
structure OneFile where
  position : UInt64
  size : UInt64

/-- The library on one file that can be moved anywhere. -/
def oneFileLib : FileHandleLib OneFile where
  position files _ := files.position
  size files _ := files.size
  getPosition files _ := (.success, files.position)
  getSize files _ := (.success, files.size)
  setPosition files _ pos :=
    (.success, { files with position := if pos = 0xFFFFFFFFFFFFFFFF then files.size else pos })
  flush files _ := (.success, files)
  getPosition_eq _ _ _ := rfl
  getSize_eq _ _ _ := rfl
  position_setPosition _ _ _ _ := rfl
  position_of_error _ _ _ h := absurd rfl h

/-- A call on a file object that holds a handle of its own. -/
def oneFileContext : FileContext OneFile :=
  ⟨oneFileLib, ⟨bareFirmware, plainFiles, none⟩, usfInit [], FdFile.new false⟩

/-- The file object. -/
def oneFileObject : FdFile := ⟨false, 3, some 20, some 1⟩

/-- Ten bytes before the end of a file of ten bytes is its start, which is reported; six bytes before
it is not. -/
theorem rewind_reports :
    SeekReports oneFileContext oneFileObject ⟨6, 10⟩ 20 ⟨-10, seekEnd⟩ ∧
      ¬ SeekReports oneFileContext oneFileObject ⟨6, 10⟩ 20 ⟨-6, seekEnd⟩ := by
  have ho : openHandle oneFileContext.m oneFileContext.data oneFileContext.stdio oneFileObject =
      some 20 := rfl
  constructor
  · rw [seek_reports_iff oneFileContext oneFileObject ⟨6, 10⟩ 20 ⟨-10, seekEnd⟩ ho]
    exact fun _ _ => by decide
  · rw [seek_reports_iff oneFileContext oneFileObject ⟨6, 10⟩ 20 ⟨-6, seekEnd⟩ ho]
    intro hzero
    exact absurd (hzero ⟨rfl, rfl⟩ (by decide)) (by decide)

/-- `seek (4)` in a file of ten bytes moves there and returns 0. -/
theorem seek_to_four_not_reported :
    ¬ SeekReports oneFileContext oneFileObject ⟨0, 10⟩ 20 ⟨4, seekSet⟩ := by
  intro h
  have hs : SeekSucceeds oneFileContext.lib ⟨0, 10⟩ 20 ⟨4, seekSet⟩ := ⟨rfl, rfl⟩
  rcases h.returned hs (by decide) with ⟨pos, files', hok, hpos⟩
  rw [streamSeek_returns_zero hok] at hpos
  exact absurd hpos (by decide)

end EfiLvgl.Usf
