import EfiLvgl.Os.Files
import EfiLvgl.Uefi.Load

/-!
# EfiLvgl.Os.Listing — `os.ilistdir` and `os.listdir`

The iterator goes through a directory with a handle and a buffer that the library owns. Neither is
reset when it ends, so that one more call works on a closed handle and a buffer that has been freed.
`os.listdir` takes everything `os.ilistdir` returns for an iterator, `None` apart
(`listing_right_iff`).
-/

namespace EfiLvgl.Os

open EfiLvgl.Usf

/-! ## Directories -/

/-- `it->openlist`: `NULL`, or a buffer and what its memory holds. -/
inductive Openlist where
  | null
  | buffer (info : FileInfo) (freed : Bool)
  deriving DecidableEq

/-- What comes of `FileHandleFindFirstFile` and of `FileHandleFindNextFile`. -/
structure Find where
  status : EfiStatus
  noFile : Bool
  openlist : Openlist

/-- A directory: its entries, the error its enumeration ends with if it does, and what the calls
come to that are made on a handle that has been closed. -/
structure Listing where
  entries : List FileInfo
  last : EfiStatus
  stale : Nat → Find

/-- A directory handle: what has not been read yet, and how often it was used after being closed. -/
structure Directory where
  listing : Listing
  unread : List FileInfo
  closed : Bool
  late : Nat

/-- An opened directory. -/
def Listing.opened (listing : Listing) : Directory := ⟨listing, listing.entries, false, 0⟩

/-- The next call on a closed handle. -/
def Directory.findStale (d : Directory) : Find × Directory :=
  (d.listing.stale d.late, { d with late := d.late + 1 })

/-- `FileHandleFindFirstFile`: a buffer is allocated, and freed again where there is no file. -/
def Directory.findFirstFile (d : Directory) : Find × Directory :=
  if d.closed then d.findStale
  else
    match d.unread with
    | [] => (⟨if d.listing.last.isError then d.listing.last else .notFound, false, .null⟩, d)
    | info :: rest => (⟨.success, false, .buffer info false⟩, { d with unread := rest })

/-- `FileHandleFindNextFile`: the buffer is freed where there are no more files. -/
def Directory.findNextFile (d : Directory) (info : FileInfo) (freed : Bool) : Find × Directory :=
  if d.closed then d.findStale
  else
    match d.unread with
    | [] =>
        if d.listing.last.isError then (⟨d.listing.last, false, .buffer info freed⟩, d)
        else (⟨.success, true, .buffer info true⟩, d)
    | next :: rest => (⟨.success, false, .buffer next false⟩, { d with unread := rest })

/-! ## The iterator -/

def fileTypeDir : Nat := 0x4000
def fileTypeFile : Nat := 0x8000

/-- `finfo`: name, type, 0 and size. -/
structure DirTuple where
  name : List UInt8
  type : Nat
  inode : Nat
  size : UInt64
  deriving DecidableEq

/-- The tuple of an entry. -/
def FileInfo.tuple (info : FileInfo) : DirTuple where
  name := Uefi.unicodeToUtf8 info.fileName
  type := if info.isDirectory then fileTypeDir else fileTypeFile
  inode := 0
  size := info.fileSize

/-- `mp_obj_listdir_t`, and the directory that its handle is for. -/
structure Listdir where
  fh : Nat
  openlist : Openlist
  dir : Directory

/-- The first call goes to `FileHandleFindFirstFile`, the others to `FileHandleFindNextFile`. -/
def Listdir.find (it : Listdir) : Find × Directory :=
  match it.openlist with
  | .null => it.dir.findFirstFile
  | .buffer info freed => it.dir.findNextFile info freed

/-- `listdir_next`: nothing stands for the end of the iteration. -/
def listdirNext (it : Listdir) : Option DirTuple × Listdir × List HandleEvent :=
  let (find, dir) := it.find
  let it := { it with openlist := find.openlist, dir := dir }
  let stop := (none, { it with dir := { dir with closed := true } }, [.closed it.fh])
  match find.openlist with
  | .null => stop
  | .buffer info _ =>
      if find.status.isError || find.noFile then stop else (some info.tuple, it, [])

/-- That many calls of `next`. -/
def nexts : Nat → Listdir → List (Option DirTuple) × List HandleEvent
  | 0, _ => ([], [])
  | k + 1, it =>
      let (finfo, it', evs) := listdirNext it
      let (finfos, evs') := nexts k it'
      (finfo :: finfos, evs ++ evs')

/-! ## `os.ilistdir` and `os.listdir` -/

/-- The script file protocol: `Open`, and `GetCurrentDirectory`. -/
structure ScriptDirectories where
  openFile : Text → UInt64 → UInt64 → Except EfiStatus Listing
  currentDirectory : Option Text

/-- What `os.ilistdir` returns. -/
inductive IlistdirObject where
  | none
  | emptyTuple
  | iterator (it : Listdir)

/-- An iterator on a directory that has been opened. -/
def Listing.iterator (listing : Listing) : Listdir := ⟨0, .null, listing.opened⟩

/-- `mod_os_ilistdir`, with or without an argument. -/
def modOsIlistdir (sfp : Except EfiStatus ScriptDirectories) (path : Option Text) :
    IlistdirObject × List HandleEvent :=
  match sfp with
  | .error _ => (.none, [])
  | .ok sfp =>
      match path.or sfp.currentDirectory with
      | none => (.none, [])
      | some path =>
          match sfp.openFile path efiFileModeRead 0 with
          | .error _ => (.emptyTuple, [])
          | .ok listing => (.iterator listing.iterator, [.opened 0])

/-- The loop of `mod_os_listdir`; nothing means that it has not ended after that many turns. -/
def listdirLoop : Nat → Listdir → Option (List DirTuple × List HandleEvent)
  | 0, _ => none
  | turns + 1, it =>
      match listdirNext it with
      | (none, _, evs) => some ([], evs)
      | (some finfo, it', evs) =>
          (listdirLoop turns it').map fun p => (finfo :: p.1, evs ++ p.2)

/-- What comes of `os.listdir`. -/
inductive ListdirOutcome where
  | returned (finfos : List DirTuple) (events : List HandleEvent)
  /-- `listdir_next` is called on an object that is no directory iterator. -/
  | notIterator
  | running

/-- `mod_os_listdir`. -/
def modOsListdir (turns : Nat) (sfp : Except EfiStatus ScriptDirectories) (path : Option Text) :
    ListdirOutcome :=
  match modOsIlistdir sfp path with
  | (.none, evs) => .returned [] evs
  | (.emptyTuple, _) => .notIterator
  | (.iterator it, evs) =>
      match listdirLoop turns it with
      | none => .running
      | some (finfos, evs') => .returned finfos (evs ++ evs')

/-! ## What is to be expected -/

/-- That many calls of `next` yield what has not been read in order and stop from then on, the
handle being closed when the end is reached, and only then. -/
def NextsRight (it : Listdir) (k : Nat) : Prop :=
  (nexts k it).1 = (it.dir.unread.map fun info => some info.tuple).take k ++
      List.replicate (k - it.dir.unread.length) none ∧
    closings it.fh (nexts k it).2 = if it.dir.unread.length < k then 1 else 0

/-- How opening the directory comes out: there is no path to open, or an outcome of `Open`. -/
def openOutcome (sfp : Except EfiStatus ScriptDirectories) (path : Option Text) :
    Option (Except EfiStatus Listing) :=
  match sfp with
  | .error _ => none
  | .ok sfp => (path.or sfp.currentDirectory).map fun path => sfp.openFile path efiFileModeRead 0

/-- Calls of `next` on the iterator of a directory, or a call of `os.listdir`. -/
inductive ListingCall where
  | nexts (listing : Listing) (k : Nat)
  | listdir (sfp : Except EfiStatus ScriptDirectories) (path : Option Text)

/-- What is to be expected of the calls: of `os.listdir`, that it returns an empty result for what
cannot be opened. -/
def ListingCall.Right : ListingCall → Prop
  | .nexts listing k => NextsRight listing.iterator k
  | .listdir sfp path => (∀ listing, openOutcome sfp path ≠ some (.ok listing)) →
      ∀ turns, modOsListdir turns sfp path = .returned [] []

/-- The condition: `next` is not called again after the end, and `Open` does not fail. -/
def ListingCall.Plain : ListingCall → Prop
  | .nexts listing k => k ≤ listing.entries.length + 1
  | .listdir sfp path => ∀ status, openOutcome sfp path ≠ some (.error status)

/-! ## One call -/

section Next

variable {it : Listdir}

/-- The iterator when an entry has been read. -/
def Listdir.read (it : Listdir) (info : FileInfo) (rest : List FileInfo) : Listdir :=
  { it with openlist := .buffer info false, dir := { it.dir with unread := rest } }

/-- There is an entry to be read. -/
theorem listdirNext_of_cons {info : FileInfo} {rest : List FileInfo} (hopen : it.dir.closed = false)
    (hunread : it.dir.unread = info :: rest) :
    listdirNext it = (some info.tuple, it.read info rest, []) := by
  unfold Listdir.read
  cases hlist : it.openlist with
  | null =>
      simp [listdirNext, Listdir.find, hlist, Directory.findFirstFile, hopen, hunread,
        EfiStatus.isError]
  | buffer info' freed =>
      simp [listdirNext, Listdir.find, hlist, Directory.findNextFile, hopen, hunread,
        EfiStatus.isError]

/-- There is none: the handle is closed. -/
theorem listdirNext_of_nil (hopen : it.dir.closed = false) (hunread : it.dir.unread = []) :
    ∃ it', listdirNext it = (none, it', [.closed it.fh]) ∧ it'.fh = it.fh := by
  cases hlist : it.openlist with
  | null =>
      refine ⟨{ it with
        openlist := .null
        dir := { it.dir with closed := true } }, ?_, rfl⟩
      simp [listdirNext, Listdir.find, hlist, Directory.findFirstFile, hopen, hunread]
  | buffer info freed =>
      cases hlast : it.dir.listing.last.isError with
      | true =>
          refine ⟨{ it with
            openlist := .buffer info freed
            dir := { it.dir with closed := true } }, ?_, rfl⟩
          simp [listdirNext, Listdir.find, hlist, Directory.findNextFile, hopen, hunread, hlast]
      | false =>
          refine ⟨{ it with
            openlist := .buffer info true
            dir := { it.dir with closed := true } }, ?_, rfl⟩
          simp [listdirNext, Listdir.find, hlist, Directory.findNextFile, hopen, hunread, hlast]

/-- Otherwise, either something is yielded or the handle is closed. -/
theorem listdirNext_cases (it : Listdir) :
    ∃ finfo it' evs, listdirNext it = (finfo, it', evs) ∧
      ((∃ t, finfo = some t) ∨ finfo = none ∧ evs = [.closed it.fh]) := by
  unfold listdirNext
  rcases it.find with ⟨find, dir⟩
  dsimp only
  cases find.openlist with
  | null => exact ⟨_, _, _, rfl, .inr ⟨rfl, rfl⟩⟩
  | buffer info freed =>
      dsimp only
      split
      · exact ⟨_, _, _, rfl, .inr ⟨rfl, rfl⟩⟩
      · exact ⟨_, _, _, rfl, .inl ⟨_, rfl⟩⟩

end Next

/-! ## All calls -/

theorem nexts_succ {it it' : Listdir} {finfo : Option DirTuple} {evs : List HandleEvent}
    (h : listdirNext it = (finfo, it', evs)) (k : Nat) :
    nexts (k + 1) it = (finfo :: (nexts k it').1, evs ++ (nexts k it').2) := by
  simp only [nexts, h]

/-- Calls on an iterator that has not ended. -/
theorem nexts_right_iff {it : Listdir} (hopen : it.dir.closed = false) (k : Nat) :
    NextsRight it k ↔ k ≤ it.dir.unread.length + 1 := by
  generalize hunread : it.dir.unread = unread
  induction unread generalizing it k with
  | nil =>
      rcases listdirNext_of_nil hopen hunread with ⟨it', hnext, hfh⟩
      cases k with
      | zero => simp [NextsRight, nexts, hunread]
      | succ k =>
          cases k with
          | zero => simp [NextsRight, nexts, hnext, hunread, HandleEvent.closes]
          | succ k =>
              -- the second call either yields something or closes the handle again
              refine iff_of_false ?_ (by simp)
              intro hright
              rcases hright with ⟨hresults, hclosings⟩
              rw [nexts_succ hnext, hunread] at hresults hclosings
              rcases listdirNext_cases it' with ⟨finfo, it'', evs, hsecond, ⟨t, rfl⟩ | ⟨-, rfl⟩⟩
              · simp [nexts_succ hsecond, List.replicate_succ] at hresults
              · simp [nexts_succ hsecond, hfh, HandleEvent.closes] at hclosings
  | cons info rest ih =>
      have hnext := listdirNext_of_cons hopen hunread
      cases k with
      | zero => simp [NextsRight, nexts]
      | succ k =>
          have hopen' : (it.read info rest).dir.closed = false := hopen
          have hrest := ih hopen' k rfl
          have hsucc : NextsRight it (k + 1) ↔ NextsRight (it.read info rest) k := by
            simp only [NextsRight, nexts_succ hnext, hunread, List.map_cons, List.take_succ_cons,
              List.cons_append, List.cons.injEq, true_and, List.length_cons, List.nil_append,
              Nat.add_sub_add_right, Nat.add_lt_add_iff_right]
            exact Iff.rfl
          rw [hsucc, hrest, List.length_cons]
          omega

/-- A call of `os.listdir`. -/
theorem listdir_right_iff (sfp : Except EfiStatus ScriptDirectories) (path : Option Text) :
    (ListingCall.listdir sfp path).Right ↔ (ListingCall.listdir sfp path).Plain := by
  cases sfp with
  | error status =>
      refine iff_of_true (fun _ _ => rfl) fun status' h => ?_
      simp [openOutcome] at h
  | ok fs =>
      cases hpath : path.or fs.currentDirectory with
      | none =>
          refine iff_of_true (fun _ turns => ?_) fun status' h => ?_
          · simp [modOsListdir, modOsIlistdir, hpath]
          · simp [openOutcome, hpath] at h
      | some p =>
          cases hopen : fs.openFile p efiFileModeRead 0 with
          | error status =>
              -- the empty tuple is taken for an iterator
              refine iff_of_false (fun hright => ?_) fun hplain => ?_
              · have hempty := hright (fun listing => by simp [openOutcome, hpath, hopen]) 0
                simp [modOsListdir, modOsIlistdir, hpath, hopen] at hempty
              · exact hplain status (by simp [openOutcome, hpath, hopen])
          | ok listing =>
              refine iff_of_true (fun hfails => ?_) fun status' h => ?_
              · exact absurd (by simp [openOutcome, hpath, hopen]) (hfails listing)
              · simp [openOutcome, hpath, hopen] at h

/-- The calls are right just when there is none on an iterator that has ended, and when no directory
that `os.listdir` is to list fails to open. -/
theorem listing_right_iff (call : ListingCall) : call.Right ↔ call.Plain := by
  cases call with
  | nexts listing k =>
      have hopen : listing.iterator.dir.closed = false := rfl
      exact nexts_right_iff hopen k
  | listdir sfp path => exact listdir_right_iff sfp path

/-- A directory without entries. -/
def emptyListing : Listing := ⟨[], .success, fun _ => ⟨.notFound, false, .null⟩⟩

/-- The second call of `next` closes the handle of an empty directory again, and `os.listdir` of a
path that does not open works on the empty tuple. -/
theorem second_next_closes_again :
    ¬ (ListingCall.nexts emptyListing 2).Right ∧
      ¬ (ListingCall.listdir (.ok ⟨fun _ _ _ => .error .notFound, none⟩)
        (some (text ['x']))).Right := by
  refine ⟨fun hright => ?_, fun hright => ?_⟩
  · exact absurd hright.2 (by decide)
  · have hempty := hright (fun listing => by simp [openOutcome]) 0
    cases hempty

/-! ## `os.listdir` of a directory -/

/-- The loop takes one turn for each entry and one for the end. -/
theorem listdirLoop_eq {it : Listdir} (hopen : it.dir.closed = false) {turns : Nat}
    (hturns : it.dir.unread.length < turns) :
    listdirLoop turns it = some (it.dir.unread.map FileInfo.tuple, [.closed it.fh]) := by
  generalize hunread : it.dir.unread = unread at hturns
  induction unread generalizing it turns with
  | nil =>
      rcases listdirNext_of_nil hopen hunread with ⟨it', hnext, -⟩
      match turns, hturns with
      | turns + 1, _ => simp only [listdirLoop, hnext, List.map_nil]
  | cons info rest ih =>
      have hnext := listdirNext_of_cons hopen hunread
      match turns, hturns with
      | turns + 1, hturns =>
          have hopen' : (it.read info rest).dir.closed = false := hopen
          have hrest := ih hopen' rfl (Nat.lt_of_succ_lt_succ hturns)
          simp only [listdirLoop, hnext, hrest, Option.map_some, List.nil_append, List.map_cons]
          rfl

/-- `os.listdir` of a directory that opens returns its entries in order and closes it once. -/
theorem modOsListdir_of_opens {sfp : Except EfiStatus ScriptDirectories} {path : Option Text}
    {listing : Listing} (hopen : openOutcome sfp path = some (.ok listing)) {turns : Nat}
    (hturns : listing.entries.length < turns) :
    modOsListdir turns sfp path =
      .returned (listing.entries.map FileInfo.tuple) [.opened 0, .closed 0] := by
  have hiterator : modOsIlistdir sfp path = (.iterator listing.iterator, [.opened 0]) := by
    cases sfp with
    | error status => simp [openOutcome] at hopen
    | ok fs =>
        cases hpath : path.or fs.currentDirectory with
        | none => simp [openOutcome, hpath] at hopen
        | some p =>
            simp only [openOutcome, hpath, Option.map_some, Option.some.injEq] at hopen
            simp [modOsIlistdir, hpath, hopen]
  have hclosed : listing.iterator.dir.closed = false := rfl
  have hloop := listdirLoop_eq hclosed hturns
  simp only [modOsListdir, hiterator, hloop]
  rfl

end EfiLvgl.Os
