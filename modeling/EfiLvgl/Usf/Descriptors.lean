import EfiLvgl.Lib.Run
import EfiLvgl.Usf.Data

/-!
# EfiLvgl.Usf.Descriptors — the descriptor table is a finite map

What the table is for, as an abstract object: three standard handles that are always
there, and a finite map from descriptors to handles. `FdMap.note` is what one answered
call does to it, `replay` what a whole history does.

1. `Refines` relates the array to the map;
2. `refines_step`: each call keeps the relation, whatever its arguments are;
3. `descriptor_table`: in every state that a run reaches, the array is the map that
   the history describes, and every call answers from it.
-/

namespace EfiLvgl.Usf

open EfiLvgl.Run EfiLvgl.Slots EfiLvgl.Mapping

/-! ## Calls -/

/-- The four calls that work on the table. -/
inductive Call where
  | map (this fileHandle : Option Ptr)
  | unmap (this : Option Ptr) (fileDescriptor : Int)
  | getFileHandle (this : Option Ptr) (fileDescriptor : Int)
  | setStdIo (this stdIn stdOut stdErr : Option Ptr)
  deriving DecidableEq, Repr

/-- The status, and what has been written to the out parameter. -/
structure Reply where
  status : EfiStatus
  fileDescriptor : Option Int := none
  fileHandle : Option Ptr := none
  deriving DecidableEq, Repr

/-- One call. `UsfSetStdIo` does not check `This`: without it, it has no table. -/
def step (s : UsfPrivateData) (call : Call) : Option (UsfPrivateData × List (Call × Reply)) :=
  match call with
  | .map this fileHandle =>
      let (s', status, fileDescriptor) := usfMap s this fileHandle
      some (s', [(call, ⟨status, fileDescriptor, none⟩)])
  | .unmap this fileDescriptor =>
      let (s', status) := usfUnmap s this fileDescriptor
      some (s', [(call, ⟨status, none, none⟩)])
  | .getFileHandle this fileDescriptor =>
      let (status, fileHandle) := usfGetFileHandle s this fileDescriptor
      some (s, [(call, ⟨status, none, fileHandle⟩)])
  | .setStdIo none _ _ _ => none
  | .setStdIo (some _) stdIn stdOut stdErr =>
      let (s', status) := usfSetStdIo s stdIn stdOut stdErr
      some (s', [(call, ⟨status, none, none⟩)])

/-! ## The finite map -/

/-- The abstract table. -/
structure FdMap where
  stdIn : Ptr
  stdOut : Ptr
  stdErr : Ptr
  files : Int → Option Ptr

def FdMap.initial : FdMap := ⟨mStdIn, mStdOut, mStdErr, fun _ => none⟩

/-- What an answered call does to the map. -/
def FdMap.note (m : FdMap) : Call × Reply → FdMap
  | (.map _ fileHandle, ⟨.success, some d, _⟩) =>
      { m with files := Function.update m.files d fileHandle }
  | (.unmap _ d, ⟨.success, _, _⟩) => { m with files := Function.update m.files d none }
  | (.setStdIo _ stdIn stdOut stdErr, _) =>
      { m with
        stdIn := stdIn.getD mStdIn
        stdOut := stdOut.getD mStdOut
        stdErr := stdErr.getD mStdErr }
  | _ => m

/-- The map a history describes: a descriptor stands for the handle of the latest
successful `UsfMap` that returned it, unless it has been unmapped since. -/
def replay (h : List (Call × Reply)) : FdMap := h.foldl FdMap.note FdMap.initial

/-- The array shows the map. -/
structure Refines (s : UsfPrivateData) (m : FdMap) : Prop where
  stdIn : s.filePool stdinFileno = some m.stdIn
  stdOut : s.filePool stdoutFileno = some m.stdOut
  stdErr : s.filePool stderrFileno = some m.stdErr
  files : ∀ index : Fin filePoolSize, 3 ≤ index.val → s.filePool index = m.files index.val

theorem ne_standard {index : Fin filePoolSize} (hindex : 3 ≤ index.val) :
    index ≠ stdinFileno ∧ index ≠ stdoutFileno ∧ index ≠ stderrFileno := by
  refine ⟨?_, ?_, ?_⟩
  · rintro rfl
    exact absurd hindex (by decide)
  · rintro rfl
    exact absurd hindex (by decide)
  · rintro rfl
    exact absurd hindex (by decide)

/-- Setting the three standard entries of any table. -/
theorem refines_standard {s : UsfPrivateData} {files : Int → Option Ptr}
    (hfiles : ∀ index : Fin filePoolSize, 3 ≤ index.val → s.filePool index = files index.val)
    (stdIn stdOut stdErr : Option Ptr) :
    Refines (usfSetStdIo s stdIn stdOut stdErr).1
      ⟨stdIn.getD mStdIn, stdOut.getD mStdOut, stdErr.getD mStdErr, files⟩ := by
  constructor
  · simp [usfSetStdIo, stdinFileno, stdoutFileno, stderrFileno]
  · simp [usfSetStdIo, stdoutFileno, stderrFileno]
  · simp [usfSetStdIo]
  · intro index hindex
    obtain ⟨h0, h1, h2⟩ := ne_standard hindex
    simp [usfSetStdIo, h0, h1, h2, hfiles index hindex]

theorem refines_init (table : List DevicePath) : Refines (usfInit table) FdMap.initial :=
  refines_standard (s := ⟨fun _ => none, table, none⟩) (fun _ _ => rfl) none none none

/-! ## One lemma for each call -/

/-- The entry behind a descriptor that may be unmapped. -/
theorem entryOf_file {fileDescriptor : Int} (hlow : 3 ≤ fileDescriptor)
    (hhigh : fileDescriptor < 64) :
    ∃ index : Fin filePoolSize, entryOf fileDescriptor = some index ∧
      fileDescriptor = index.val ∧ 3 ≤ index.val := by
  cases hentry : entryOf fileDescriptor with
  | none =>
      rcases entryOf_eq_none.mp hentry with h | h
      · omega
      · omega
  | some index =>
      have heq := entryOf_eq_some.mp hentry
      exact ⟨index, rfl, heq, by omega⟩

/-- Changing an entry behind the standard ones is changing the map there. -/
theorem Refines.update {s : UsfPrivateData} {m : FdMap} (h : Refines s m)
    {index : Fin filePoolSize} (hindex : 3 ≤ index.val) (handle : Option Ptr) :
    Refines { s with filePool := Function.update s.filePool index handle }
      { m with files := Function.update m.files index.val handle } := by
  have hne : ∀ i : Fin filePoolSize, i.val < 3 → i ≠ index := by
    rintro i hi rfl
    omega
  constructor
  · simpa [Function.update_of_ne (hne stdinFileno (by decide))] using h.stdIn
  · simpa [Function.update_of_ne (hne stdoutFileno (by decide))] using h.stdOut
  · simpa [Function.update_of_ne (hne stderrFileno (by decide))] using h.stdErr
  · intro i hi
    by_cases hii : i = index
    · subst hii
      simp
    · have hval : (i.val : Int) ≠ index.val := by
        intro heq
        apply hii
        apply Fin.ext
        omega
      simp [Function.update_of_ne hii, Function.update_of_ne hval, h.files i hi]

theorem refines_map {s : UsfPrivateData} {m : FdMap} (h : Refines s m)
    (this fileHandle : Option Ptr) :
    Refines (usfMap s this fileHandle).1 (m.note (.map this fileHandle,
      ⟨(usfMap s this fileHandle).2.1, (usfMap s this fileHandle).2.2, none⟩)) := by
  unfold usfMap
  split
  · next handle =>
      split
      · next index hfree => exact h.update (le_firstFree hfree) (some handle)
      · exact h
  · exact h

theorem refines_unmap {s : UsfPrivateData} {m : FdMap} (h : Refines s m)
    (this : Option Ptr) (fileDescriptor : Int) :
    Refines (usfUnmap s this fileDescriptor).1 (m.note (.unmap this fileDescriptor,
      ⟨(usfUnmap s this fileDescriptor).2, none, none⟩)) := by
  unfold usfUnmap
  split
  · exact h
  · next hargs =>
      split
      · exact h
      · next index hentry =>
          have heq := entryOf_eq_some.mp hentry
          have hindex : 3 ≤ index.val := by
            rw [not_or] at hargs
            omega
          rw [heq]
          exact h.update hindex none

theorem refines_setStdIo {s : UsfPrivateData} {m : FdMap} (h : Refines s m)
    (this stdIn stdOut stdErr : Option Ptr) (reply : Reply) :
    Refines (usfSetStdIo s stdIn stdOut stdErr).1
      (m.note (.setStdIo this stdIn stdOut stdErr, reply)) :=
  refines_standard h.files _ _ _

/-- The one case analysis over the calls. -/
theorem refines_step {s s' : UsfPrivateData} {m : FdMap} {call : Call}
    {evs : List (Call × Reply)} (h : Refines s m) (hs : step s call = some (s', evs)) :
    Refines s' (evs.foldl FdMap.note m) := by
  cases call with
  | map this fileHandle =>
      obtain ⟨rfl, rfl⟩ := Prod.mk.inj (Option.some.inj hs)
      exact refines_map h this fileHandle
  | unmap this fileDescriptor =>
      obtain ⟨rfl, rfl⟩ := Prod.mk.inj (Option.some.inj hs)
      exact refines_unmap h this fileDescriptor
  | getFileHandle this fileDescriptor =>
      obtain ⟨rfl, rfl⟩ := Prod.mk.inj (Option.some.inj hs)
      exact h
  | setStdIo this stdIn stdOut stdErr =>
      cases this with
      | none => cases hs
      | some this =>
          obtain ⟨rfl, rfl⟩ := Prod.mk.inj (Option.some.inj hs)
          exact refines_setStdIo h (some this) stdIn stdOut stdErr ⟨.success, none, none⟩

theorem refines_reach {table : List DevicePath} {s : UsfPrivateData}
    {h : List (Call × Reply)} (hr : Reach step (fun _ _ => True) (usfInit table) s h) :
    Refines s (replay h) := by
  refine hr.invariant (fun s h => Refines s (replay h)) (refines_init table) ?_
  intro s s' h evs call hinv _ hs
  rw [replay, List.foldl_append]
  exact refines_step hinv hs

/-! ## What each call answers -/

theorem standard_map (s : UsfPrivateData) (this fileHandle : Option Ptr)
    {index : Fin filePoolSize} (hindex : index.val < 3) :
    (usfMap s this fileHandle).1.filePool index = s.filePool index := by
  unfold usfMap
  split
  · split
    · next free hfree =>
        have hle := le_firstFree hfree
        have hne : index ≠ free := by
          rintro rfl
          omega
        simp [hne]
    · rfl
  · rfl

theorem standard_unmap (s : UsfPrivateData) (this : Option Ptr) (fileDescriptor : Int)
    {index : Fin filePoolSize} (hindex : index.val < 3) :
    (usfUnmap s this fileDescriptor).1.filePool index = s.filePool index := by
  unfold usfUnmap
  split
  · rfl
  · next hargs =>
      split
      · rfl
      · next entry hentry =>
          have heq := entryOf_eq_some.mp hentry
          have hne : index ≠ entry := by
            rintro rfl
            rw [not_or] at hargs
            omega
          simp [hne]

/-- A call that is not `UsfSetStdIo` leaves the standard entries alone. -/
theorem standard_kept {s s' : UsfPrivateData} {call : Call} {evs : List (Call × Reply)}
    (hs : step s call = some (s', evs))
    (hcall : ∀ this stdIn stdOut stdErr, call ≠ .setStdIo this stdIn stdOut stdErr)
    {index : Fin filePoolSize} (hindex : index.val < 3) :
    s'.filePool index = s.filePool index := by
  cases call with
  | map this fileHandle =>
      have hs' : (usfMap s this fileHandle).1 = s' := congrArg Prod.fst (Option.some.inj hs)
      rw [← hs']
      exact standard_map s this fileHandle hindex
  | unmap this fileDescriptor =>
      have hs' : (usfUnmap s this fileDescriptor).1 = s' := congrArg Prod.fst (Option.some.inj hs)
      rw [← hs']
      exact standard_unmap s this fileDescriptor hindex
  | getFileHandle this fileDescriptor =>
      have hs' : s = s' := congrArg Prod.fst (Option.some.inj hs)
      rw [hs']
  | setStdIo this stdIn stdOut stdErr => exact absurd rfl (hcall this stdIn stdOut stdErr)

/-- `UsfMap` takes the smallest free descriptor. -/
theorem map_free {s : UsfPrivateData} {m : FdMap} (h : Refines s m) (this handle : Ptr) {d : Int}
    (hlow : 3 ≤ d) (hhigh : d < 64) (hfree : m.files d = none)
    (hleast : ∀ d', 3 ≤ d' → d' < d → m.files d' ≠ none) :
    ∃ index : Fin filePoolSize, d = index.val ∧
      step s (.map (some this) (some handle)) =
        some ({ s with filePool := put s.filePool index handle },
          [(.map (some this) (some handle), ⟨.success, some d, none⟩)]) := by
  obtain ⟨index, -, rfl, hindex⟩ := entryOf_file hlow hhigh
  have hfirst : firstFree s.filePool 3 = some index := by
    rw [firstFree_eq_some]
    refine ⟨hindex, ?_, ?_⟩
    · rw [h.files index hindex, hfree]
    · intro j hj hlt
      rw [h.files j hj]
      exact hleast j.val (by omega) (by exact_mod_cast hlt)
  refine ⟨index, rfl, ?_⟩
  simp [step, usfMap, hfirst]

/-- With no free descriptor it says so and changes nothing. -/
theorem map_full {s : UsfPrivateData} {m : FdMap} (h : Refines s m) (this handle : Ptr)
    (hfull : ∀ d, 3 ≤ d → d < 64 → m.files d ≠ none) :
    step s (.map (some this) (some handle)) =
      some (s, [(.map (some this) (some handle), ⟨.notFound, some (-1), none⟩)]) := by
  have hnone : firstFree s.filePool 3 = none := by
    rw [firstFree_eq_none]
    intro index hindex
    have hlt : index.val < 64 := index.isLt
    rw [h.files index hindex]
    exact hfull index.val (by omega) (by omega)
  simp [step, usfMap, hnone]

/-- What `UsfGetFileHandle` answers, as a function of the map. -/
def FdMap.answer (m : FdMap) (d : Int) : Reply :=
  if d = 0 then ⟨.success, none, some m.stdIn⟩
  else if d = 1 then ⟨.success, none, some m.stdOut⟩
  else if d = 2 then ⟨.success, none, some m.stdErr⟩
  else if 3 ≤ d ∧ d < 64 then
    match m.files d with
    | some handle => ⟨.success, none, some handle⟩
    | none => ⟨.notFound, none, none⟩
  else ⟨.invalidParameter, none, none⟩

theorem getFileHandle_eq {s : UsfPrivateData} {m : FdMap} (h : Refines s m) (this : Ptr)
    (d : Int) :
    step s (.getFileHandle (some this) d) =
      some (s, [(.getFileHandle (some this) d, m.answer d)]) := by
  have hreply : (⟨(usfGetFileHandle s (some this) d).1, none,
      (usfGetFileHandle s (some this) d).2⟩ : Reply) = m.answer d := by
    cases hentry : entryOf d with
    | none =>
        have hout := entryOf_eq_none.mp hentry
        have h0 : d ≠ 0 := by omega
        have h1 : d ≠ 1 := by omega
        have h2 : d ≠ 2 := by omega
        have h3 : ¬ (3 ≤ d ∧ d < 64) := by omega
        simp [usfGetFileHandle, hentry, FdMap.answer, h0, h1, h2, h3]
    | some index =>
        obtain rfl := entryOf_eq_some.mp hentry
        by_cases hindex : 3 ≤ index.val
        · have hlt : index.val < 64 := index.isLt
          have h0 : (index.val : Int) ≠ 0 := by omega
          have h1 : (index.val : Int) ≠ 1 := by omega
          have h2 : (index.val : Int) ≠ 2 := by omega
          have h3 : 3 ≤ (index.val : Int) ∧ (index.val : Int) < 64 := by omega
          simp only [usfGetFileHandle, hentry, h.files index hindex, FdMap.answer, h0, h1, h2, h3,
            if_false, if_true, and_self]
          cases m.files index.val <;> rfl
        · -- one of the three standard entries
          have hcases : index = stdinFileno ∨ index = stdoutFileno ∨ index = stderrFileno := by
            simp only [Fin.ext_iff, stdinFileno, stdoutFileno, stderrFileno]
            simp only [filePoolSize, Fin.isValue, Fin.val_zero, Fin.val_one, Fin.val_two]
            omega
          rcases hcases with rfl | rfl | rfl
          · simp only [usfGetFileHandle, hentry, h.stdIn]
            rfl
          · simp only [usfGetFileHandle, hentry, h.stdOut]
            rfl
          · simp only [usfGetFileHandle, hentry, h.stdErr]
            rfl
  simp [step, hreply]

/-- `UsfUnmap` frees a descriptor behind the standard ones, and nothing else. -/
theorem unmap_eq (s : UsfPrivateData) (this : Ptr) (d : Int) :
    (∀ index : Fin filePoolSize, d = index.val → 3 ≤ d →
      step s (.unmap (some this) d) = some ({ s with filePool := clear s.filePool index },
        [(.unmap (some this) d, ⟨.success, none, none⟩)])) ∧
    (¬ (3 ≤ d ∧ d < 64) → step s (.unmap (some this) d) =
      some (s, [(.unmap (some this) d, ⟨.invalidParameter, none, none⟩)])) := by
  constructor
  · rintro index rfl hlow
    have hnot : ¬ (index.val : Int) < 3 := by omega
    simp [step, usfUnmap, hnot]
  · intro hout
    by_cases hlow : d < 3
    · simp [step, usfUnmap, hlow]
    · have hentry : entryOf d = none := entryOf_eq_none.mpr (by omega)
      simp [step, usfUnmap, hlow, hentry]

/-! ## Runs -/

/-- What holds of the table in a state that has been reached with a history. -/
structure DescriptorTable (s : UsfPrivateData) (h : List (Call × Reply)) : Prop where
  /-- The array is the finite map of the history; the standard entries are not `NULL`. -/
  refines : Refines s (replay h)
  /-- They change through `UsfSetStdIo` only. -/
  standard : ∀ call s' evs, step s call = some (s', evs) →
    (∀ this stdIn stdOut stdErr, call ≠ .setStdIo this stdIn stdOut stdErr) →
    ∀ index : Fin filePoolSize, index.val < 3 → s'.filePool index = s.filePool index
  mapFree : ∀ (this handle : Ptr) (d : Int), 3 ≤ d → d < 64 → (replay h).files d = none →
    (∀ d', 3 ≤ d' → d' < d → (replay h).files d' ≠ none) →
    ∃ index : Fin filePoolSize, d = index.val ∧
      step s (.map (some this) (some handle)) =
        some ({ s with filePool := put s.filePool index handle },
          [(.map (some this) (some handle), ⟨.success, some d, none⟩)])
  mapFull : ∀ this handle : Ptr, (∀ d, 3 ≤ d → d < 64 → (replay h).files d ≠ none) →
    step s (.map (some this) (some handle)) =
      some (s, [(.map (some this) (some handle), ⟨.notFound, some (-1), none⟩)])
  getFileHandle : ∀ (this : Ptr) (d : Int), step s (.getFileHandle (some this) d) =
    some (s, [(.getFileHandle (some this) d, (replay h).answer d)])
  unmap : ∀ (this : Ptr) (d : Int),
    (∀ index : Fin filePoolSize, d = index.val → 3 ≤ d →
      step s (.unmap (some this) d) = some ({ s with filePool := clear s.filePool index },
        [(.unmap (some this) d, ⟨.success, none, none⟩)])) ∧
    (¬ (3 ≤ d ∧ d < 64) → step s (.unmap (some this) d) =
      some (s, [(.unmap (some this) d, ⟨.invalidParameter, none, none⟩)]))

/-- In every state that any sequence of calls reaches, the descriptor table is a finite
map with three standard entries. -/
theorem descriptor_table {table : List DevicePath} {s : UsfPrivateData}
    {h : List (Call × Reply)} (hr : Reach step (fun _ _ => True) (usfInit table) s h) :
    DescriptorTable s h where
  refines := refines_reach hr
  standard _ _ _ hs hcall _ hindex := standard_kept hs hcall hindex
  mapFree this handle _ hlow hhigh hfree hleast :=
    map_free (refines_reach hr) this handle hlow hhigh hfree hleast
  mapFull this handle hfull := map_full (refines_reach hr) this handle hfull
  getFileHandle this d := getFileHandle_eq (refines_reach hr) this d
  unmap this d := unmap_eq s this d

/-- Two files are mapped, the first is unmapped, and a third takes its place. -/
def reuseRun : List Call :=
  [.map (some 1) (some 10), .map (some 1) (some 11), .unmap (some 1) 3, .map (some 1) (some 12)]

theorem descriptor_reused : ∃ s h, run step (usfInit []) reuseRun = some (s, h) ∧
    (replay h).files 3 = some 12 ∧ (replay h).files 4 = some 11 ∧ DescriptorTable s h := by
  have hrun : ∃ s h, run step (usfInit []) reuseRun = some (s, h) ∧
      (replay h).files 3 = some 12 ∧ (replay h).files 4 = some 11 := ⟨_, _, rfl, rfl, rfl⟩
  obtain ⟨s, h, hs, h3, h4⟩ := hrun
  have hg : Guarded step (fun _ _ => True) (usfInit []) reuseRun := by
    simp [Guarded, reuseRun]
  exact ⟨s, h, hs, h3, h4, descriptor_table (Reach.of_run hg hs)⟩

end EfiLvgl.Usf
