import EfiLvgl.Usf.FileObject

/-!
# EfiLvgl.Usf.Ownership — file objects and the descriptors they hold

The table does not know how many objects hold one of its entries: an object that is opened by
an integer shares the entry of another one. Objects that are opened by a path share none
(`Owned`), so that each keeps its own, unless an object opened by an integer is closed that
has the descriptor or the handle of one of them (`descriptor_owned`).
-/

namespace EfiLvgl.Usf

open EfiLvgl.Run EfiLvgl.Slots EfiLvgl.Mapping

/-! ## Sessions -/

/-- A file object, and whether it has been opened by a path. -/
structure FileObject where
  file : FdFile
  byPath : Bool

/-- The table, and the file objects that `open` has returned, in that order. -/
structure Session where
  data : UsfPrivateData
  objects : List FileObject

inductive FileCall where
  | openFile (machine : Machine) (file : FileArg) (mode_s : List Char)
  | close (object : Nat)

def FileArg.isPath : FileArg → Bool
  | .fd _ => false
  | .name _ => true

def fileStep (s : Session) (call : FileCall) : Option (Session × List FileEvent) :=
  match call with
  | .openFile machine file mode_s =>
      match fdfileOpen machine s.data file mode_s with
      | .error _ => none
      | .ok (data, o, evs) =>
          some (⟨data, s.objects ++ o.toList.map (FileObject.mk · file.isPath)⟩, evs)
  | .close object =>
      match s.objects[object]? with
      | none => none
      | some o =>
          let (data, o', evs) := fdfileClose s.data o.file
          some (⟨data, s.objects.set object ⟨o', o.byPath⟩⟩, evs)

/-- The object has been opened by a path, and has the handle. -/
def Session.Has (s : Session) (object : Nat) (o : FdFile) (handle : Ptr) : Prop :=
  s.objects[object]? = some ⟨o, true⟩ ∧ o.fh = some handle

/-- The call does not give out the handle. -/
def Machine.Fresh (m : Machine) (handle : Ptr) : Prop :=
  (∀ h ∈ m.fw.handles, h.openVolume ≠ .ok handle) ∧
    ∀ root name mode attributes, m.files.openFile root name mode attributes ≠ .ok handle

/-- The firmware gives out no handle that an object opened by a path still has. -/
def FreshHandles (s : Session) : FileCall → Prop
  | .openFile machine _ _ => ∀ object o handle, s.Has object o handle → machine.Fresh handle
  | .close _ => True

/-- An object that has been opened by an integer is not closed as long as it has the descriptor or
the handle of one that has been opened by a path. -/
def Considerate (s : Session) : FileCall → Prop
  | .openFile _ _ _ => True
  | .close object => ∀ g, s.objects[object]? = some ⟨g, false⟩ →
      ∀ object' o handle, s.Has object' o handle → g.fd ≠ o.fd ∧ g.fh ≠ some handle

/-- The object itself is not closed. -/
def Spares (object : Nat) : FileCall → Prop
  | .openFile _ _ _ => True
  | .close object' => object' ≠ object

/-! ## Entries -/

/-- The descriptor stands for the handle. -/
def Holds (s : UsfPrivateData) (fd : Int) (handle : Ptr) : Prop :=
  ∃ index : Fin filePoolSize, 3 ≤ index.val ∧ fd = index.val ∧ s.filePool index = some handle

theorem Holds.getFileHandle {s : UsfPrivateData} {fd : Int} {handle : Ptr}
    (h : Holds s fd handle) (this : Ptr) :
    usfGetFileHandle s (some this) fd = (.success, some handle) := by
  obtain ⟨index, -, rfl, hslot⟩ := h
  simp [usfGetFileHandle, hslot]

/-- Another entry may be filled. -/
theorem Holds.put {s : UsfPrivateData} {fd : Int} {handle : Ptr} (h : Holds s fd handle)
    {index : Fin filePoolSize} (hfree : firstFree s.filePool 3 = some index) (fh : Ptr) :
    Holds { s with filePool := put s.filePool index fh } fd handle := by
  obtain ⟨i, hi, hfd, hslot⟩ := h
  -- the entry that is filled was free, this one was not
  have hne : i ≠ index := by
    rintro rfl
    rw [firstFree_free hfree] at hslot
    cases hslot
  exact ⟨i, hi, hfd, by simpa [hne] using hslot⟩

/-- Another descriptor may be unmapped. -/
theorem Holds.unmap {s : UsfPrivateData} {fd fd' : Int} {handle : Ptr} (h : Holds s fd handle)
    (hne : fd' ≠ fd) (this : Ptr) : Holds (usfUnmap s (some this) fd').1 fd handle := by
  obtain ⟨i, hi, hfd, hslot⟩ := h
  refine ⟨i, hi, hfd, ?_⟩
  rw [usfUnmap]
  split
  · exact hslot
  · split
    · exact hslot
    · next index hentry =>
        have hne' : i ≠ index := by
          rintro rfl
          exact hne ((entryOf_eq_some.mp hentry).trans hfd.symm)
        simpa [hne'] using hslot

theorem Machine.Fresh.not_given {m : Machine} {handle : Ptr} (h : m.Fresh handle)
    {s : UsfPrivateData} {this : Ptr} {filePath : Text} {mode : UInt64} {status : EfiStatus}
    {fh : Option Ptr} {evs : List FileEvent}
    (hopen : usfOpen m.fw m.files s (some this) (some filePath) mode 0 = .ok (status, fh, evs)) :
    .closed handle ∉ evs ∧ fh ≠ some handle := by
  have hnot : ¬ (.closed handle ∈ evs ∨ fh = some handle) := by
    intro hgiven
    rcases usfOpen_given hopen hgiven with ⟨v, hv, hroot⟩ | ⟨root, name, hfile⟩
    · exact h.1 v hv hroot
    · exact h.2 root name mode 0 hfile
  exact not_or.mp hnot

/-- `sfp_open` fills a free entry at most, and closes what it has been given. -/
theorem sfpOpen_holds {m : Machine} {s s' : UsfPrivateData} {self self' : FdFile} {fname : Text}
    {mode : UInt64} {status : EfiStatus} {evs : List FileEvent} {fd : Int} {handle : Ptr}
    (h : Holds s fd handle) (hfresh : m.Fresh handle)
    (hopen : sfpOpen m s self fname mode = .ok (s', status, self', evs)) :
    Holds s' fd handle ∧ .closed handle ∉ evs := by
  have hclosed : ∀ {fh : Ptr} {evs' : List FileEvent}, .closed handle ∉ evs' →
      some fh ≠ some handle → FileEvent.closed handle ∉ evs' ++ [.closed fh] := by
    intro fh evs' hevs hne hmem
    rcases List.mem_append.mp hmem with hmem | hmem
    · exact hevs hmem
    · cases List.mem_singleton.mp hmem
      exact hne rfl
  cases sfpOpen_cases hopen with
  | absent hnone => exact ⟨h, by simp⟩
  | notOpened hsfp husf hnone => exact ⟨h, (hfresh.not_given husf).1⟩
  | noDescriptor hsfp husf hfull =>
      obtain ⟨hevs, hne⟩ := hfresh.not_given husf
      exact ⟨h, hclosed hevs hne⟩
  | noFile hsfp husf hindex hfile =>
      obtain ⟨hevs, hne⟩ := hfresh.not_given husf
      exact ⟨h.put hindex _, hclosed hevs hne⟩
  | file hsfp husf hindex hfile => exact ⟨h.put hindex _, (hfresh.not_given husf).1⟩

theorem closed_notMem_seekOrTruncate (m : Machine) (mode : OpenMode) (fh : Option Ptr)
    (handle : Ptr) : .closed handle ∉ seekOrTruncate m mode fh := by
  intro hmem
  unfold seekOrTruncate at hmem
  split at hmem
  · cases hmem
  · split at hmem
    · cases hmem
    · split at hmem
      · rcases List.mem_append.mp hmem with hmem | hmem
        · split at hmem
          · simp at hmem
          · cases hmem
        · split at hmem
          · simp at hmem
          · cases hmem
      · cases hmem

theorem fdfileOpen_holds {m : Machine} {s s' : UsfPrivateData} {file : FileArg}
    {mode_s : List Char} {o : Option FdFile} {evs : List FileEvent} {fd : Int} {handle : Ptr}
    (h : Holds s fd handle) (hfresh : m.Fresh handle)
    (hopen : fdfileOpen m s file mode_s = .ok (s', o, evs)) :
    Holds s' fd handle ∧ .closed handle ∉ evs := by
  have htail : ∀ {evs' : List FileEvent} (mode : OpenMode) (fh : Option Ptr),
      .closed handle ∉ evs' → FileEvent.closed handle ∉ evs' ++ seekOrTruncate m mode fh := by
    intro evs' mode fh hevs hmem
    rcases List.mem_append.mp hmem with hmem | hmem
    · exact hevs hmem
    · exact closed_notMem_seekOrTruncate m mode fh handle hmem
  unfold fdfileOpen at hopen
  simp only at hopen
  cases file with
  | fd fd' =>
      -- the table is only read
      simp only at hopen
      split at hopen
      · cases hopen
        exact ⟨h, by simp⟩
      · cases hopen
        exact ⟨h, htail _ _ (by simp)⟩
  | name fname =>
      simp only at hopen
      split at hopen
      · cases hopen
      · next s₁ status o₁ evs₁ hsfp =>
          obtain ⟨hholds, hevs⟩ := sfpOpen_holds h hfresh hsfp
          split at hopen
          · cases hopen
            exact ⟨hholds, hevs⟩
          · cases hopen
            exact ⟨hholds, htail _ _ hevs⟩

theorem fdfileClose_holds {s : UsfPrivateData} {self : FdFile} {fd : Int} {handle : Ptr}
    (h : Holds s fd handle) (hfd : self.fd ≠ fd) (hfh : self.fh ≠ some handle) :
    Holds (fdfileClose s self).1 fd handle ∧ .closed handle ∉ (fdfileClose s self).2.2 := by
  constructor
  · simp only [fdfileClose]
    split
    · next sfp _ => exact h.unmap hfd sfp
    · exact h
  · -- only its own handle is closed
    intro hmem
    simp only [fdfileClose] at hmem
    cases hself : self.fh with
    | none =>
        rw [hself] at hmem
        cases hmem
    | some f =>
        rw [hself] at hmem hfh
        simp only [Option.map_some, Option.toList_some, List.mem_singleton,
          FileEvent.closed.injEq] at hmem
        exact hfh (by rw [hmem])

/-! ## What the objects own -/

/-- What holds between the calls: the entry of every object that has been opened by a path and has
a handle stands for that handle, no two have the same, and one without a handle has nothing left
to close. -/
structure Owned (s : Session) : Prop where
  holds : ∀ {object : Nat} {o : FdFile} {handle : Ptr}, s.Has object o handle →
    Holds s.data o.fd handle
  apart : ∀ {i j : Nat} {o o' : FdFile} {handle handle' : Ptr}, s.Has i o handle →
    s.Has j o' handle' → i ≠ j → o.fd ≠ o'.fd ∧ handle ≠ handle'
  idle : ∀ {object : Nat} {o : FdFile}, s.objects[object]? = some ⟨o, true⟩ → o.fh = none →
    o.sfp = none

theorem owned_nil (data : UsfPrivateData) : Owned ⟨data, []⟩ := by
  constructor
  · rintro object o handle ⟨hobject, -⟩
    cases hobject
  · rintro i j o o' handle handle' ⟨hobject, -⟩
    cases hobject
  · intro object o hobject
    cases hobject

/-- An object that `open` returns for a path has nothing, or a free entry and a handle that the
call has given out. -/
theorem fdfileOpen_name_cases {m : Machine} {s s' : UsfPrivateData} {fname : Text}
    {mode_s : List Char} {o : FdFile} {evs : List FileEvent}
    (hopen : fdfileOpen m s (.name fname) mode_s = .ok (s', some o, evs)) :
    (o.fh = none ∧ o.sfp = none) ∨ ∃ handle, o.fh = some handle ∧ Holds s' o.fd handle ∧
      (∀ handle', Holds s o.fd handle' → False) ∧ ¬ m.Fresh handle := by
  unfold fdfileOpen at hopen
  simp only at hopen
  split at hopen
  · cases hopen
  · next s₁ status o₁ evs₁ hsfp =>
      split at hopen
      · cases hopen
      · next hsuccess =>
          cases hopen
          cases sfpOpen_cases hsfp with
          | absent hnone => exact absurd rfl hsuccess
          | notOpened hsfp' husf hnone => exact .inl ⟨rfl, rfl⟩
          | noDescriptor hsfp' husf hfull => exact absurd rfl hsuccess
          | noFile hsfp' husf hindex hfile => exact absurd rfl hsuccess
          | @file sfp fh evs index hsfp' husf hindex hfile =>
              refine .inr ⟨fh, rfl, ⟨_, le_firstFree hindex, rfl, by simp⟩, ?_, ?_⟩
              · rintro handle' ⟨i, -, hfd, hslot⟩
                have hi : index = i := Fin.ext (Int.ofNat_inj.mp hfd)
                rw [← hi, firstFree_free hindex] at hslot
                cases hslot
              · intro hfresh
                exact (hfresh.not_given husf).2 rfl

/-- The objects after `open`. -/
theorem openFile_objects {s s' : Session} {machine : Machine} {file : FileArg}
    {mode_s : List Char} {evs : List FileEvent}
    (hstep : fileStep s (.openFile machine file mode_s) = some (s', evs)) :
    ∃ o, fdfileOpen machine s.data file mode_s = .ok (s'.data, o, evs) ∧
      s'.objects = s.objects ++ o.toList.map (FileObject.mk · file.isPath) := by
  simp only [fileStep] at hstep
  split at hstep
  · cases hstep
  · next data o evs' hopen =>
      cases hstep
      exact ⟨o, hopen, rfl⟩

/-- The object is an old one, or the one that `open` has returned for a path. -/
theorem getElem?_opened {objects : List FileObject} {r : Option FdFile} {byPath : Bool}
    {object : Nat} {o : FdFile}
    (h : (objects ++ r.toList.map (FileObject.mk · byPath))[object]? = some ⟨o, true⟩) :
    objects[object]? = some ⟨o, true⟩ ∨
      object = objects.length ∧ r = some o ∧ byPath = true := by
  rcases Nat.lt_or_ge object objects.length with hlt | hge
  · rw [List.getElem?_append_left hlt] at h
    exact .inl h
  · rw [List.getElem?_append_right hge] at h
    cases r with
    | none => cases h
    | some o' =>
        have hzero : object - objects.length = 0 := by
          by_contra hpos
          obtain ⟨n, hn⟩ := Nat.exists_eq_succ_of_ne_zero hpos
          rw [hn] at h
          cases h
        rw [hzero] at h
        cases h
        exact .inr ⟨by omega, rfl, rfl⟩

/-- `open` keeps what the others have, and what it returns is new. -/
theorem Owned.open {s s' : Session} {machine : Machine} {file : FileArg} {mode_s : List Char}
    {evs : List FileEvent} (h : Owned s) (hfresh : FreshHandles s (.openFile machine file mode_s))
    (hstep : fileStep s (.openFile machine file mode_s) = some (s', evs)) : Owned s' := by
  obtain ⟨r, hopen, hobjects⟩ := openFile_objects hstep
  have hold : ∀ {object o handle}, s.Has object o handle → Holds s'.data o.fd handle :=
    fun hhas => (fdfileOpen_holds (h.holds hhas) (hfresh _ _ _ hhas) hopen).1
  -- an object of the new session has what it had, or is the new one
  have hcases : ∀ {object o handle}, s'.Has object o handle → s.Has object o handle ∨
      object = s.objects.length ∧ Holds s'.data o.fd handle ∧
        (∀ handle', Holds s.data o.fd handle' → False) ∧ ¬ machine.Fresh handle := by
    rintro object o handle ⟨hobject, hhandle⟩
    rw [hobjects] at hobject
    rcases getElem?_opened hobject with hobject | ⟨hlast, rfl, hpath⟩
    · exact .inl ⟨hobject, hhandle⟩
    · cases file with
      | fd fd => cases hpath
      | name fname =>
          rcases fdfileOpen_name_cases hopen with ⟨hnone, -⟩ | ⟨handle', hsome, hnew⟩
          · rw [hhandle] at hnone
            cases hnone
          · cases hhandle.symm.trans hsome
            exact .inr ⟨hlast, hnew⟩
  constructor
  · intro object o handle hhas
    rcases hcases hhas with hhas | ⟨-, hholds, -⟩
    · exact hold hhas
    · exact hholds
  · intro i j o o' handle handle' hi hj hij
    rcases hcases hi with hi | ⟨hi, -, hfree, hnotFresh⟩
    · rcases hcases hj with hj | ⟨-, -, hfree, hnotFresh⟩
      · exact h.apart hi hj hij
      · refine ⟨?_, ?_⟩
        · intro hfd
          exact hfree handle (hfd ▸ h.holds hi)
        · rintro rfl
          exact hnotFresh (hfresh _ _ _ hi)
    · rcases hcases hj with hj | ⟨hj, -⟩
      · refine ⟨?_, ?_⟩
        · intro hfd
          exact hfree handle' (hfd ▸ h.holds hj)
        · rintro rfl
          exact hnotFresh (hfresh _ _ _ hj)
      · exact absurd (hi.trans hj.symm) hij
  · intro object o hobject hnone
    rw [hobjects] at hobject
    rcases getElem?_opened hobject with hobject | ⟨-, rfl, hpath⟩
    · exact h.idle hobject hnone
    · cases file with
      | fd fd => cases hpath
      | name fname =>
          rcases fdfileOpen_name_cases hopen with ⟨-, hsfp⟩ | ⟨handle, hsome, -⟩
          · exact hsfp
          · rw [hnone] at hsome
            cases hsome

/-- An object without handle and protocol closes nothing. -/
theorem fdfileClose_idle (s : UsfPrivateData) {self : FdFile} (hfh : self.fh = none)
    (hsfp : self.sfp = none) : (fdfileClose s self).1 = s ∧ (fdfileClose s self).2.2 = [] := by
  simp [fdfileClose, hfh, hsfp]

/-- What another object has outlives the closing of one. -/
theorem Owned.close_keeps {s : Session} (h : Owned s) {object : Nat} {g : FileObject}
    (hobject : s.objects[object]? = some g) (hok : Considerate s (.close object)) {object' : Nat}
    {o : FdFile} {handle : Ptr} (hhas : s.Has object' o handle) (hne : object ≠ object') :
    Holds (fdfileClose s.data g.file).1 o.fd handle ∧
      .closed handle ∉ (fdfileClose s.data g.file).2.2 := by
  have hholds := h.holds hhas
  obtain ⟨file, byPath⟩ := g
  cases byPath with
  | false =>
      obtain ⟨hfd, hfh⟩ := hok file hobject _ _ _ hhas
      exact fdfileClose_holds hholds hfd hfh
  | true =>
      cases hfh : file.fh with
      | none =>
          -- it has been closed before, or has never had anything
          obtain ⟨hdata, hevs⟩ := fdfileClose_idle s.data hfh (h.idle hobject hfh)
          rw [hdata, hevs]
          exact ⟨hholds, by simp⟩
      | some f =>
          obtain ⟨hfd, hhandle⟩ := h.apart ⟨hobject, hfh⟩ hhas hne
          refine fdfileClose_holds hholds hfd ?_
          rw [hfh]
          exact fun heq => hhandle (Option.some.inj heq)

/-- The objects after `close`: the closed one has nothing. -/
theorem getElem?_closed {objects : List FileObject} {i j : Nat} (data : UsfPrivateData)
    {g : FileObject} {o : FdFile}
    (h : (objects.set i ⟨(fdfileClose data g.file).2.1, g.byPath⟩)[j]? = some ⟨o, true⟩) :
    i ≠ j ∧ objects[j]? = some ⟨o, true⟩ ∨ i = j ∧ o.fh = none ∧ o.sfp = none := by
  by_cases hij : i = j
  · subst hij
    rw [List.getElem?_set, if_pos rfl] at h
    split at h
    · rw [Option.some.injEq, FileObject.mk.injEq] at h
      obtain ⟨rfl, -⟩ := h
      exact .inr ⟨rfl, rfl, rfl⟩
    · cases h
  · rw [List.getElem?_set_ne hij] at h
    exact .inl ⟨hij, h⟩

theorem Owned.close {s s' : Session} {object : Nat} {evs : List FileEvent} (h : Owned s)
    (hok : Considerate s (.close object))
    (hstep : fileStep s (.close object) = some (s', evs)) : Owned s' := by
  simp only [fileStep] at hstep
  split at hstep
  · cases hstep
  · next g hobject =>
      cases hstep
      have hcases : ∀ {object' o handle}, Session.Has ⟨(fdfileClose s.data g.file).1,
          s.objects.set object ⟨(fdfileClose s.data g.file).2.1, g.byPath⟩⟩ object' o handle →
          object ≠ object' ∧ s.Has object' o handle := by
        rintro object' o handle ⟨hobject', hhandle⟩
        rcases getElem?_closed s.data hobject' with ⟨hne, hold⟩ | ⟨-, hnone, -⟩
        · exact ⟨hne, hold, hhandle⟩
        · rw [hhandle] at hnone
          cases hnone
      constructor
      · intro object' o handle hhas
        obtain ⟨hne, hhas⟩ := hcases hhas
        exact (h.close_keeps hobject hok hhas hne).1
      · intro i j o o' handle handle' hi hj hij
        exact h.apart (hcases hi).2 (hcases hj).2 hij
      · intro object' o hobject' hnone
        rcases getElem?_closed s.data hobject' with ⟨-, hold⟩ | ⟨-, -, hsfp⟩
        · exact h.idle hold hnone
        · exact hsfp

/-- Every call keeps what the objects own. -/
theorem Owned.step {s s' : Session} {call : FileCall} {evs : List FileEvent} (h : Owned s)
    (hfresh : FreshHandles s call) (hok : Considerate s call)
    (hstep : fileStep s call = some (s', evs)) : Owned s' := by
  cases call with
  | openFile machine file mode_s => exact h.open hfresh hstep
  | close object => exact h.close hok hstep

/-- An object that is not closed itself still has its handle, which is not closed either. -/
theorem Owned.keeps {s s' : Session} {call : FileCall} {evs : List FileEvent} (h : Owned s)
    (hfresh : FreshHandles s call) (hok : Considerate s call)
    (hstep : fileStep s call = some (s', evs)) {object : Nat} {o : FdFile} {handle : Ptr}
    (hhas : s.Has object o handle) (hspares : Spares object call) :
    s'.Has object o handle ∧ .closed handle ∉ evs := by
  cases call with
  | openFile machine file mode_s =>
      obtain ⟨r, hopen, hobjects⟩ := openFile_objects hstep
      refine ⟨⟨?_, hhas.2⟩, (fdfileOpen_holds (h.holds hhas) (hfresh _ _ _ hhas) hopen).2⟩
      rw [hobjects, List.getElem?_append_left (List.getElem?_eq_some_iff.mp hhas.1).1]
      exact hhas.1
  | close object' =>
      simp only [fileStep] at hstep
      split at hstep
      · cases hstep
      · next g hobject =>
          cases hstep
          refine ⟨⟨?_, hhas.2⟩, (h.close_keeps hobject hok hhas hspares).2⟩
          rw [List.getElem?_set_ne hspares]
          exact hhas.1

/-- As long as no object that has been opened by an integer is closed with the descriptor or the
handle of one that has been opened by a path, each of the latter keeps its descriptor and its
handle until it is closed itself. -/
theorem descriptor_owned {data : UsfPrivateData} {s₀ s₁ s : Session} {machine : Machine}
    {fname : Text} {mode_s : List Char} {h₀ evs h : List FileEvent} {o : FdFile} {handle : Ptr}
    (hr₀ : Reach fileStep (fun s call => FreshHandles s call ∧ Considerate s call) ⟨data, []⟩ s₀ h₀)
    (hfresh : FreshHandles s₀ (.openFile machine (.name fname) mode_s))
    (hopen : fileStep s₀ (.openFile machine (.name fname) mode_s) = some (s₁, evs))
    (hobject : s₁.objects = s₀.objects ++ [⟨o, true⟩]) (hhandle : o.fh = some handle)
    (hr : Reach fileStep (fun s call => (FreshHandles s call ∧ Considerate s call) ∧
      Spares s₀.objects.length call) s₁ s h) :
    (∀ this, usfGetFileHandle s.data (some this) o.fd = (.success, some handle)) ∧
      .closed handle ∉ h := by
  have howned₀ : Owned s₀ := by
    refine hr₀.invariant (fun s _ => Owned s) (owned_nil data) ?_
    intro s s' _ evs call hinv hok hstep
    exact hinv.step hok.1 hok.2 hstep
  have hhas : s₁.Has s₀.objects.length o handle := by
    refine ⟨?_, hhandle⟩
    rw [hobject, List.getElem?_append_right (Nat.le_refl _), Nat.sub_self]
    rfl
  have hinv : Owned s ∧ s.Has s₀.objects.length o handle ∧ .closed handle ∉ h := by
    refine hr.invariant
      (fun s h => Owned s ∧ s.Has s₀.objects.length o handle ∧ .closed handle ∉ h) ?_ ?_
    · exact ⟨howned₀.open hfresh hopen, hhas, by simp⟩
    · -- by induction on the calls behind it
      rintro s s' h evs call ⟨howned, hhas, hnot⟩ ⟨⟨hfresh, hok⟩, hspares⟩ hstep
      obtain ⟨hhas', hevs⟩ := howned.keeps hfresh hok hstep hhas hspares
      refine ⟨howned.step hfresh hok hstep, hhas', ?_⟩
      rw [List.mem_append, not_or]
      exact ⟨hnot, hevs⟩
  exact ⟨(hinv.1.holds hinv.2.1).getFileHandle, hinv.2.2⟩

/-! ## Examples -/

/-- `open ("\\\\LABEL:DATA\\f", "r")`. -/
def openData : FileCall :=
  .openFile ⟨nvmeFirmware, plainFiles, some 1⟩ (.name (rootTypeLabel ++
    text ['D', 'A', 'T', 'A', '\\', 'f'])) ['r']

/-- `open (fd)`, which asks the firmware for nothing. -/
def openByFd (fd : Int) : FileCall := .openFile ⟨bareFirmware, ⟨fun _ _ _ _ => .error .notFound,
  fun _ => none, fun _ => .error .notFound⟩, some 1⟩ (.fd fd) ['r']

/-- What may be closed besides two objects opened by a path, of which the first is closed. -/
theorem considerate_standard {s : Session} {file : FdFile} (hfd : file.fd ≠ 3)
    (hfh : file.fh ≠ some 9)
    (hobjects : s.objects = [⟨⟨false, -1, none, none⟩, true⟩,
      ⟨⟨false, 3, some 9, some 1⟩, true⟩, ⟨file, false⟩]) : Considerate s (.close 2) := by
  rintro g hg object o handle ⟨hobject, hhandle⟩
  rw [hobjects] at hg hobject
  cases hg
  rcases object with _ | _ | _ | n
  · cases hobject
    cases hhandle
  · cases hobject
    cases hhandle
    exact ⟨hfd, hfh⟩
  · cases hobject
  · cases hobject

/-- The file is opened and closed, and opened again: the second object has the descriptor and the
handle that the first one had. Then the first object is closed once more, and one on standard
input is opened, and closed twice. -/
theorem data_kept : ∃ s₀ s₁ s h₀ evs h,
    run fileStep ⟨nvmeData, []⟩ [openData, .close 0] = some (s₀, h₀) ∧
      fileStep s₀ openData = some (s₁, evs) ∧ evs = [.opened 7, .opened 9, .closed 7] ∧
      run fileStep s₁ [.close 0, openByFd (2 ^ 32), .close 2, .close 2] = some (s, h) ∧
      (∀ this, usfGetFileHandle s.data (some this) 3 = (.success, some 9)) ∧ .closed 9 ∉ h := by
  have hg₀ : Guarded fileStep (fun s call => FreshHandles s call ∧ Considerate s call)
      ⟨nvmeData, []⟩ [openData, .close 0] := by
    refine ⟨⟨?_, trivial⟩, ?_⟩
    · rintro object o handle ⟨hobject, -⟩
      cases hobject
    · rintro s evs hstep
      cases hstep
      refine ⟨⟨trivial, ?_⟩, fun _ _ _ => trivial⟩
      intro g hg
      cases hg
  obtain ⟨s₀, h₀, hs₀⟩ : ∃ s₀ h₀,
      run fileStep ⟨nvmeData, []⟩ [openData, .close 0] = some (s₀, h₀) := ⟨_, _, rfl⟩
  have hobjects₀ : s₀.objects = [⟨⟨false, -1, none, none⟩, true⟩] := by
    cases hs₀
    rfl
  have hfresh : FreshHandles s₀ openData := by
    rintro object o handle ⟨hobject, hhandle⟩
    rw [hobjects₀] at hobject
    rcases object with _ | n
    · cases hobject
      cases hhandle
    · cases hobject
  obtain ⟨s₁, hs₁⟩ : ∃ s₁, fileStep s₀ openData = some (s₁, [.opened 7, .opened 9, .closed 7]) := by
    cases hs₀
    exact ⟨_, rfl⟩
  have hobjects₁ : s₁.objects = s₀.objects ++ [⟨⟨false, 3, some 9, some 1⟩, true⟩] := by
    cases hs₀
    cases hs₁
    rfl
  obtain ⟨s, h, hs⟩ : ∃ s h, run fileStep s₁ [.close 0, openByFd (2 ^ 32), .close 2, .close 2] =
      some (s, h) := by
    cases hs₀
    cases hs₁
    exact ⟨_, _, rfl⟩
  have hg : Guarded fileStep (fun s call => (FreshHandles s call ∧ Considerate s call) ∧
      Spares s₀.objects.length call) s₁ [.close 0, openByFd (2 ^ 32), .close 2, .close 2] := by
    cases hs₀
    cases hs₁
    refine ⟨⟨⟨trivial, ?_⟩, Nat.zero_ne_one⟩, ?_⟩
    · intro g hg
      cases hg
    rintro s evs hstep
    cases hstep
    refine ⟨⟨⟨fun _ _ _ _ => ⟨by simp [bareFirmware], by simp⟩, trivial⟩, trivial⟩, ?_⟩
    rintro s evs hstep
    cases hstep
    refine ⟨⟨⟨trivial, considerate_standard (by decide) (by decide) rfl⟩,
      Nat.succ_succ_ne_one 0⟩, ?_⟩
    rintro s evs hstep
    cases hstep
    exact ⟨⟨⟨trivial, considerate_standard (by decide) (by decide) rfl⟩,
      Nat.succ_succ_ne_one 0⟩, fun _ _ _ => trivial⟩
  exact ⟨s₀, s₁, s, h₀, _, h, hs₀, hs₁, rfl, hs,
    descriptor_owned (Reach.of_run hg₀ hs₀) hfresh hs₁ hobjects₁ rfl (Reach.of_run hg hs)⟩

/-- It is not enough that the object itself is not closed: closing another one that has been opened
by its descriptor unmaps it and closes its handle. -/
theorem shared_descriptor_unmapped :
    ¬ ∀ (data : UsfPrivateData) (s₀ s₁ s : Session) (machine : Machine) (fname : Text)
      (mode_s : List Char) (h₀ evs h : List FileEvent) (o : FdFile) (handle : Ptr),
      Reach fileStep FreshHandles ⟨data, []⟩ s₀ h₀ →
      FreshHandles s₀ (.openFile machine (.name fname) mode_s) →
      fileStep s₀ (.openFile machine (.name fname) mode_s) = some (s₁, evs) →
      s₁.objects = s₀.objects ++ [⟨o, true⟩] → o.fh = some handle →
      Reach fileStep (fun s call => FreshHandles s call ∧ Spares s₀.objects.length call) s₁ s h →
      (∀ this, usfGetFileHandle s.data (some this) o.fd = (.success, some handle)) ∧
        .closed handle ∉ h := by
  intro hclaim
  obtain ⟨s₁, hs₁⟩ : ∃ s₁, fileStep ⟨nvmeData, []⟩ openData =
      some (s₁, [.opened 7, .opened 9, .closed 7]) := ⟨_, rfl⟩
  have hobjects : s₁.objects = [] ++ [⟨⟨false, 3, some 9, some 1⟩, true⟩] := by
    cases hs₁
    rfl
  have hg : Guarded fileStep (fun s call => FreshHandles s call ∧ Spares 0 call) s₁
      [openByFd 3, .close 1] := by
    refine ⟨⟨fun _ _ _ _ => ⟨by simp [bareFirmware], by simp⟩, trivial⟩, ?_⟩
    rintro s₂ evs₂ -
    exact ⟨⟨trivial, Nat.one_ne_zero⟩, fun _ _ _ => trivial⟩
  have hrun : ∃ s, run fileStep s₁ [openByFd 3, .close 1] = some (s, [.closed 9]) := by
    cases hs₁
    exact ⟨_, rfl⟩
  obtain ⟨s, hs⟩ := hrun
  have hfresh : FreshHandles ⟨nvmeData, []⟩ openData := by
    rintro object o handle ⟨hobject, -⟩
    cases hobject
  have hkept := hclaim _ _ _ _ _ _ _ _ _ _ _ 9 .init hfresh hs₁ hobjects rfl (Reach.of_run hg hs)
  exact hkept.2 (by simp)

end EfiLvgl.Usf
