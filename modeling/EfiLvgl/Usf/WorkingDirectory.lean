import EfiLvgl.Lib.Run
import EfiLvgl.Usf.Path

/-!
# EfiLvgl.Usf.WorkingDirectory — relative paths and what they are relative to

1. `norm_relative`: without a shell, a relative path is joined to the directory, and
   since joining is associative, changing the directory composes
   (`working_directory_composes`);
2. `norm_mapped_iff`: of what `UsfFilePathNorm` returns, exactly the prefixed paths that
   it leaves alone may lack the form `\\:` mapping name `:` rest. `SplitDrive` relies on
   that form, so a run keeps it as long as no such path becomes the current directory
   (`current_directory_splits`);
3. `directory_slash_free`: without a shell no '/' gets into the stored directory.
-/

namespace EfiLvgl.Usf

open EfiLvgl.Run EfiLvgl.Search EfiLvgl.Join EfiLvgl.Mapping

/-! ## Separators -/

/-- The same path with some '\' written as '/'. -/
def Respelled (path path' : Text) : Prop :=
  List.Forall₂ (fun c c' => c' = c ∨ (c = pathSepChar ∧ c' = ch '/')) path path'

theorem unifySeparators_respelled {path path' : Text} (h : Respelled path path') :
    unifySeparators path' = unifySeparators path := by
  induction h with
  | nil => rfl
  | @cons c c' path path' hc _ ih =>
      have hhead : (if c' = ch '/' then pathSepChar else c') =
          if c = ch '/' then pathSepChar else c := by
        rcases hc with rfl | ⟨rfl, rfl⟩
        · rfl
        · rfl
      rw [unifySeparators, unifySeparators, List.map_cons, List.map_cons, hhead]
      exact congrArg _ ih

theorem unifySeparators_eq_nil {path : Text} : unifySeparators path = [] ↔ path = [] :=
  List.map_eq_nil_iff

theorem unifySeparators_append (a b : Text) :
    unifySeparators (a ++ b) = unifySeparators a ++ unifySeparators b :=
  List.map_append

theorem slash_notMem_unifySeparators (path : Text) : ch '/' ∉ unifySeparators path := by
  intro h
  obtain ⟨c, -, hc⟩ := List.mem_map.mp h
  split at hc
  · exact absurd hc (by decide)
  · next hne => exact hne hc

theorem unifySeparators_of_notMem {path : Text} (h : ch '/' ∉ path) :
    unifySeparators path = path := by
  rw [unifySeparators, List.map_congr_left (g := id), List.map_id]
  intro c hc
  have hne : c ≠ ch '/' := by
    rintro rfl
    exact h hc
  rw [if_neg hne]
  rfl

theorem drive_mem_unifySeparators {path : Text} :
    driveChar ∈ unifySeparators path ↔ driveChar ∈ path := by
  constructor
  · intro h
    obtain ⟨c, hmem, hc⟩ := List.mem_map.mp h
    split at hc
    · exact absurd hc (by decide)
    · rwa [← hc]
  · intro h
    exact List.mem_map.mpr ⟨driveChar, h, by decide⟩

/-- `UsfFilePathNorm` reads its path through the copy with unified separators only. -/
theorem norm_eq (fw : Firmware) (s : UsfPrivateData) (filePath : Text) (convert : Bool) :
    usfFilePathNorm fw s filePath convert =
      if filePath = [] then .error .assertion
      else normCopy fw s (unifySeparators filePath) convert := by
  rw [usfFilePathNorm, strDup_length]
  split
  · next hdup =>
      split at hdup
      · next hnil => rw [if_pos hnil]
      · cases hdup
  · next hdup =>
      split at hdup
      · cases hdup
      · next hnil =>
          rw [Option.some.injEq] at hdup
          rw [if_neg hnil, hdup]

theorem norm_respelled {path path' : Text} (h : Respelled path path') (fw : Firmware)
    (s : UsfPrivateData) (convert : Bool) :
    usfFilePathNorm fw s path' convert = usfFilePathNorm fw s path convert := by
  have hunify := unifySeparators_respelled h
  have hnil : path' = [] ↔ path = [] := by
    rw [← unifySeparators_eq_nil, hunify, unifySeparators_eq_nil]
  rw [norm_eq, norm_eq, hunify]
  simp only [hnil]

theorem change_respelled {path path' : Text} (h : Respelled path path') (fw : Firmware)
    (s : UsfPrivateData) (this : Option Ptr) :
    usfChangeCurrentDirectory fw s this (some path') =
      usfChangeCurrentDirectory fw s this (some path) := by
  cases this with
  | none => rfl
  | some this => simp only [usfChangeCurrentDirectory, norm_respelled h]

/-! ## Normal form -/

/-- `\\:` name `:` rest. -/
def normalPath (name rest : Text) : Text := rootTypeInternal ++ (name ++ driveChar :: rest)

/-- The parts of a path in normal form: one ':' between them, a rest that starts with a
separator, and no separator but '\' (`directory_slash_free`). -/
structure NormalForm (name rest : Text) : Prop where
  nameDrive : driveChar ∉ name
  nameSlash : ch '/' ∉ name
  restDrive : driveChar ∉ rest
  restSlash : ch '/' ∉ rest
  rooted : rest = [] ∨ rest.head? = some pathSepChar

/-- The root of a mapping. -/
def mappingRoot (name : Text) : Text := rootTypeInternal ++ (name ++ [driveChar])

theorem mappingRoot_getLast? (name : Text) : (mappingRoot name).getLast? ≠ some pathSepChar := by
  have hlast : (mappingRoot name).getLast? = some driveChar := by simp [mappingRoot]
  rw [hlast]
  decide

theorem mappingRoot_ne_nil (name : Text) : mappingRoot name ≠ [] := by
  simp [mappingRoot, rootTypeInternal, text]

theorem mappingRoot_append (name rest : Text) :
    mappingRoot name ++ rest = normalPath name rest := by
  simp [mappingRoot, normalPath]

theorem join_mappingRoot {rest : Text} (h : rest = [] ∨ rest.head? = some pathSepChar)
    (name : Text) : join pathSepChar (mappingRoot name) rest = normalPath name rest := by
  rcases h with rfl | h
  · rw [join_nil, ← mappingRoot_append, List.append_nil]
  · obtain ⟨rest, rfl⟩ := List.head?_eq_some_iff.mp h
    rw [join_rooted (mappingRoot_getLast? name), mappingRoot_append]

/-- Whatever is joined to the root of a mapping, the result is in normal form. -/
theorem join_mappingRoot_eq {x : Text} (hx : x ≠ []) (name : Text) :
    join pathSepChar (mappingRoot name) x =
      normalPath name (pathSepChar :: chopStart pathSepChar x) := by
  rw [join_of_ne_nil (mappingRoot_ne_nil name) hx, chopEnd_of_ne (mappingRoot_getLast? name),
    mappingRoot_append]

theorem splitDrive_normalPath {name : Text} (hname : driveChar ∉ name) (rest : Text) :
    splitDrive (normalPath name rest) =
      .ok (some (name ++ [driveChar]), if rest = [] then none else some rest) := by
  have hroot : rootTypeInternal = pathPrefix ++ [driveChar] := rfl
  have hstart : driveChar ∉ pathPrefix := by decide
  rw [normalPath, hroot, List.append_assoc]
  exact splitDrive_eq hstart hname rest

/-- What is relative is joined to the directory, what is rooted to the mapping. -/
def resolve (name rest path : Text) : Text :=
  if path.head? = some pathSepChar then join pathSepChar (mappingRoot name) (path.drop 1)
  else join pathSepChar (join pathSepChar (mappingRoot name) rest) path

theorem relativeTo_eq (name rest path : Text) :
    relativeTo (some (name ++ [driveChar])) (if rest = [] then none else some rest) path =
      resolve name rest path := by
  have hrest : (if rest = [] then none else some rest).getD [] = rest := by
    split
    · next h => rw [h]; rfl
    · rfl
  rw [relativeTo, resolve]
  by_cases hhead : path.head? = some pathSepChar
  · simp [hhead, unifiedPath_eq, mappingRoot]
  · simp only [hhead, if_false, unifiedPath_eq, hrest, Option.getD_some, mappingRoot]

/-- A path that is neither prefixed nor has a drive, without a shell. -/
theorem norm_relative {fw : Firmware} (hshell : fw.shell = none) {s : UsfPrivateData}
    {name rest : Text} (hcur : s.currentDirectory = some (normalPath name rest))
    (hname : driveChar ∉ name) {path : Text} (hne : path ≠ []) (hdrive : driveChar ∉ path)
    (hstart : ¬ pathPrefix <+: unifySeparators path) (convert : Bool) :
    usfFilePathNorm fw s path convert =
      .ok (.ok (resolve name rest (unifySeparators path))) := by
  have hnone : strStr (unifySeparators path) [driveChar] = none := by
    rw [strStr_singleton_none, drive_mem_unifySeparators]
    exact hdrive
  rw [norm_eq, if_neg hne, normCopy, if_pos hstart, hnone]
  simp only [normRelative, hshell, hcur, splitDrive_normalPath hname, relativeTo_eq]

/-! ## The result once more -/

/-- A prefixed path with unified separators is left alone, unless it is a label to be
converted. -/
theorem norm_unified {r : Text} (hstart : pathPrefix <+: r) (hslash : ch '/' ∉ r)
    {convert : Bool} (h : convert = true → rootTypeInternal <:+: r ∨ ¬ rootTypeLabel <:+: r)
    (fw : Firmware) (s : UsfPrivateData) : usfFilePathNorm fw s r convert = .ok (.ok r) := by
  have hne : r ≠ [] := by
    rintro rfl
    exact absurd hstart (by decide)
  rw [norm_eq, if_neg hne, unifySeparators_of_notMem hslash, normCopy,
    if_neg (not_not.mpr hstart)]
  split
  · next hconvert =>
      rcases h hconvert.1 with hinternal | hlabel
      · exact absurd hinternal (strStr_eq_none.mp hconvert.2)
      · rw [strStr_eq_none.mpr hlabel]
  · rfl

/-- The root of the unified path stays in front. -/
theorem prefix_unifiedPath (mapping : Text) (hlast : mapping.getLast? = some driveChar)
    (curDir path : Option Text) :
    rootTypeInternal ++ mapping <+: unifiedPath mapping curDir path := by
  have hend : (rootTypeInternal ++ mapping).getLast? ≠ some pathSepChar := by
    rw [List.getLast?_append, hlast]
    decide
  rw [unifiedPath_eq]
  exact prefix_join (prefix_join (List.prefix_refl _) hend _) hend _

theorem slash_notMem_unifiedPath {mapping : Text} {curDir path : Option Text}
    (hmapping : ch '/' ∉ mapping) (hcur : ch '/' ∉ curDir.getD []) (hpath : ch '/' ∉ path.getD []) :
    ch '/' ∉ unifiedPath mapping curDir path := by
  intro h
  rw [unifiedPath_eq] at h
  have hroot : ch '/' ∉ rootTypeInternal := by decide
  have hsep : ch '/' ≠ pathSepChar := by decide
  rcases mem_join h with h | h | h
  · rcases mem_join h with h | h | h
    · rcases List.mem_append.mp h with h | h
      · exact hroot h
      · exact hmapping h
    · exact hsep h
    · exact hcur h
  · exact hsep h
  · exact hpath h

/-- A unified path of a mapping is left alone. -/
theorem norm_unifiedPath {mapping : Text} (hlast : mapping.getLast? = some driveChar)
    (curDir path : Option Text) (hmapping : ch '/' ∉ mapping) (hcur : ch '/' ∉ curDir.getD [])
    (hpath : ch '/' ∉ path.getD []) (fw : Firmware) (s : UsfPrivateData) (convert : Bool) :
    usfFilePathNorm fw s (unifiedPath mapping curDir path) convert =
      .ok (.ok (unifiedPath mapping curDir path)) := by
  have hinternal : rootTypeInternal <+: unifiedPath mapping curDir path :=
    (List.prefix_append _ _).trans (prefix_unifiedPath mapping hlast curDir path)
  have hstart : pathPrefix <+: rootTypeInternal := by decide
  exact norm_unified (hstart.trans hinternal) (slash_notMem_unifiedPath hmapping hcur hpath)
    (fun _ => Or.inl hinternal.isInfix) fw s

theorem assertMapping_ok {fw : Firmware} {s : UsfPrivateData} {devPath : Option DevicePath}
    {mapping : Text} (h : assertMapping fw s devPath = .ok mapping) :
    ∃ stem, mapping = stem ++ [driveChar] ∧ (∀ c ∈ stem, NameChar c) ∧ ∃ c ∈ stem, IsDigit c := by
  unfold assertMapping at h
  split at h
  · cases h
  · split at h
    · cases h
    · next hname =>
        cases h
        exact getConsistMappingName_shape hname

theorem slash_notMem_name {stem : Text} (h : ∀ c ∈ stem, NameChar c) :
    ch '/' ∉ stem ++ [driveChar] := by
  intro hmem
  rcases List.mem_append.mp hmem with hmem | hmem
  · exact (h _ hmem).ne (Or.inr (Or.inr rfl)) rfl
  · exact absurd hmem (by decide)

/-- What `UsfFilePathNorm` makes of a label starts with the root of a mapping. -/
theorem normLabel_ok {fw : Firmware} {s : UsfPrivateData} {tempPath r : Text}
    (h : normLabel fw s tempPath = .ok (.ok r)) :
    ∃ stem path, (∀ c ∈ stem, NameChar c) ∧ r = unifiedPath (stem ++ [driveChar]) none path ∧
      ∀ c ∈ path.getD [], c ∈ tempPath := by
  unfold normLabel at h
  split at h
  · cases h
  · next rest hrest =>
      obtain ⟨-, hsuffix⟩ := strStr_eq_some hrest
      have hdrop : ∀ c ∈ rest.drop 1, c ∈ tempPath := by
        intro c hc
        exact hsuffix.subset (List.mem_of_mem_drop hc)
      simp only at h
      split at h
      · cases h
      · split at h
        · cases h
        · next mapping hmapping =>
            simp only [Except.ok.injEq] at h
            obtain ⟨stem, rfl, hstem, -⟩ := assertMapping_ok hmapping
            refine ⟨stem, _, hstem, h.symm, ?_⟩
            intro c hc
            exact hdrop c (cutName_subset rfl c hc)

/-- Without a shell and with a directory in normal form, the result is its own. -/
theorem norm_idem {fw : Firmware} (hshell : fw.shell = none) {s : UsfPrivateData}
    {name rest : Text} (hcur : s.currentDirectory = some (normalPath name rest))
    (hn : NormalForm name rest) {path r : Text} {convert : Bool}
    (h : usfFilePathNorm fw s path convert = .ok (.ok r)) (fw' : Firmware) (s' : UsfPrivateData) :
    usfFilePathNorm fw' s' r convert = .ok (.ok r) := by
  have hslash := slash_notMem_unifySeparators path
  rw [norm_eq] at h
  split at h
  · cases h
  rw [normCopy] at h
  split at h
  · -- not prefixed: only a relative path has an answer
    next hstart =>
    split at h
    · next hnone =>
        simp only [normRelative, hshell, hcur, splitDrive_normalPath hn.nameDrive,
          Except.ok.injEq] at h
        rw [← h, relativeTo]
        -- neither part of the directory has a '/', nor has the path
        have hrest : ch '/' ∉ (if rest = [] then none else some rest).getD [] := by
          split
          · simp
          · exact hn.restSlash
        have hmapping : ch '/' ∉ name ++ [driveChar] := by
          intro hmem
          rcases List.mem_append.mp hmem with hmem | hmem
          · exact hn.nameSlash hmem
          · exact absurd hmem (by decide)
        by_cases hhead : (unifySeparators path).head? = some pathSepChar
        · simp only [hhead, if_true]
          exact norm_unifiedPath (by simp) none (some _) hmapping (by simp)
            (fun hmem => hslash (List.mem_of_mem_drop hmem)) fw' s' convert
        · simp only [hhead, if_false]
          exact norm_unifiedPath (by simp) _ (some _) hmapping hrest hslash fw' s' convert
    · -- without a shell a drive is not looked up
      simp only [normAbsolute, hshell] at h
      cases h
  · -- prefixed: converted from a label, or left alone
    next hstart =>
    rw [not_not] at hstart
    split at h
    · next hconvert =>
      split at h
      · next tempPath htemp =>
          obtain ⟨stem, path', hstem, rfl, hpath⟩ := normLabel_ok h
          refine norm_unifiedPath (by simp) none path' (slash_notMem_name hstem) (by simp) ?_ fw' s'
            convert
          intro hmem
          exact hslash ((strStr_eq_some htemp).2.subset (hpath _ hmem))
      · next hlabel =>
          cases h
          exact norm_unified hstart hslash (fun _ => Or.inr (strStr_eq_none.mp hlabel)) fw' s'
    · next hconvert =>
        cases h
        refine norm_unified hstart hslash ?_ fw' s'
        intro hc
        left
        by_contra hinternal
        exact hconvert ⟨hc, strStr_eq_none.mpr hinternal⟩

/-! ## Changing the directory -/

/-- A directory to change to: not prefixed, without a drive and without a separator at
its end. -/
structure DirectoryPath (d : Text) : Prop where
  ne_nil : d ≠ []
  drive : driveChar ∉ d
  start : ¬ pathPrefix <+: unifySeparators d
  stop : (unifySeparators d).getLast? ≠ some pathSepChar

/-- A path to be found in it. -/
structure RelativePath (f : Text) : Prop where
  ne_nil : f ≠ []
  drive : driveChar ∉ f
  start : (unifySeparators f).head? ≠ some pathSepChar

/-- Resolving is joining to the root of the mapping, and what comes behind the path
comes behind the result. -/
theorem resolve_join (name rest : Text) {u : Text} (hu : u ≠ [])
    (hlast : u.getLast? ≠ some pathSepChar) :
    ∃ x, x ≠ [] ∧ (∀ c ∈ x, c ∈ rest ∨ c = pathSepChar ∨ c ∈ u) ∧ ∀ f,
      resolve name rest (join pathSepChar u f) =
        join pathSepChar (mappingRoot name) (join pathSepChar x f) := by
  by_cases hhead : u.head? = some pathSepChar
  · -- rooted: the directory plays no part
    obtain ⟨v, rfl⟩ := List.head?_eq_some_iff.mp hhead
    have hv : v ≠ [] := by
      rintro rfl
      exact hlast rfl
    refine ⟨v, hv, fun c hc => Or.inr (Or.inr (List.mem_cons_of_mem _ hc)), ?_⟩
    intro f
    have hcons : join pathSepChar (pathSepChar :: v) f = pathSepChar :: join pathSepChar v f := by
      by_cases hf : f = []
      · simp [hf]
      · rw [join_of_ne_nil hu hf, join_of_ne_nil hv hf, chopEnd_cons hv, List.cons_append]
    rw [hcons, resolve, List.head?_cons, if_pos rfl, List.drop_succ_cons, List.drop_zero]
  · refine ⟨join pathSepChar rest u, join_ne_nil hu, fun c hc => mem_join hc, ?_⟩
    intro f
    have hhead' : (join pathSepChar u f).head? ≠ some pathSepChar := by
      by_cases hf : f = []
      · simpa [hf] using hhead
      · rw [join_of_ne_nil hu hf, chopEnd_of_ne hlast, List.head?_append_of_ne_nil _ hu]
        exact hhead
    rw [resolve, if_neg hhead', join_assoc, join_assoc]

theorem mem_chopStart {c : Char16} {x : Text} (h : c ∈ chopStart pathSepChar x) : c ∈ x := by
  rw [chopStart] at h
  split at h
  · exact List.mem_of_mem_tail h
  · exact h

theorem not_prefix_append {u : Text} (hu : u ≠ []) (hstart : ¬ pathPrefix <+: u)
    (hlast : u.getLast? ≠ some pathSepChar) (t : Text) : ¬ pathPrefix <+: u ++ t := by
  intro h
  rcases List.prefix_or_prefix_of_prefix h (List.prefix_append u t) with h | h
  · exact hstart h
  · -- a part of the prefix ends in a separator
    have hmem : u.getLast hu ∈ pathPrefix := h.subset (List.getLast_mem hu)
    have hsep : ∀ c ∈ pathPrefix, c = pathSepChar := List.all_iff_forall_prop.mp (by decide)
    apply hlast
    rw [List.getLast?_eq_some_getLast hu, hsep _ hmem]

theorem normalForm_join {name rest x : Text} (hn : NormalForm name rest) (hdrive : driveChar ∉ x)
    (hslash : ch '/' ∉ x) :
    NormalForm name (pathSepChar :: chopStart pathSepChar x) where
  nameDrive := hn.nameDrive
  nameSlash := hn.nameSlash
  restDrive hmem := by
    rcases List.mem_cons.mp hmem with hmem | hmem
    · exact absurd hmem (by decide)
    · exact hdrive (mem_chopStart hmem)
  restSlash hmem := by
    rcases List.mem_cons.mp hmem with hmem | hmem
    · exact absurd hmem (by decide)
    · exact hslash (mem_chopStart hmem)
  rooted := Or.inr rfl

/-- Changing to `d` and taking `f` there is taking `d\f` here; a path may be spelled with
either separator, and what has been brought into unified form stays as it is. -/
theorem working_directory_composes {s : UsfPrivateData} {name rest d f : Text}
    (hcur : s.currentDirectory = some (normalPath name rest)) (hn : NormalForm name rest)
    (hd : DirectoryPath d) (hf : RelativePath f) :
    (∀ fw fw' fw'' : Firmware, fw.shell = none → fw'.shell = none → fw''.shell = none →
      ∀ (this : Ptr) (convert convert' : Bool), ∃ s' rest' r,
        usfChangeCurrentDirectory fw s (some this) (some d) = .ok (s', .success) ∧
        s' = { s with currentDirectory := some (normalPath name rest') } ∧
        NormalForm name rest' ∧
        usfFilePathNorm fw' s' f convert = .ok (.ok r) ∧
        usfFilePathNorm fw'' s (d ++ pathSepChar :: f) convert' = .ok (.ok r)) ∧
    (∀ (fw : Firmware) (s : UsfPrivateData) (path path' : Text), Respelled path path' →
      (∀ convert, usfFilePathNorm fw s path' convert = usfFilePathNorm fw s path convert) ∧
      ∀ this, usfChangeCurrentDirectory fw s this (some path') =
        usfChangeCurrentDirectory fw s this (some path)) ∧
    (∀ fw : Firmware, fw.shell = none → ∀ path convert r,
      usfFilePathNorm fw s path convert = .ok (.ok r) → ∀ fw' s',
        usfFilePathNorm fw' s' r convert = .ok (.ok r)) := by
  refine ⟨?_, ?_, ?_⟩
  · intro fw fw' fw'' hshell hshell' hshell'' this convert convert'
    have hd0 : unifySeparators d ≠ [] := fun h => hd.ne_nil (unifySeparators_eq_nil.mp h)
    have hf0 : unifySeparators f ≠ [] := fun h => hf.ne_nil (unifySeparators_eq_nil.mp h)
    obtain ⟨x, hx, hmem, hresolve⟩ := resolve_join name rest hd0 hd.stop
    have hdrive : driveChar ∉ x := by
      intro h
      rcases hmem _ h with h | h | h
      · exact hn.restDrive h
      · exact absurd h (by decide)
      · exact hd.drive (drive_mem_unifySeparators.mp h)
    have hslash : ch '/' ∉ x := by
      intro h
      rcases hmem _ h with h | h | h
      · exact hn.restSlash h
      · exact absurd h (by decide)
      · exact slash_notMem_unifySeparators d h
    have hnew : resolve name rest (unifySeparators d) =
        normalPath name (pathSepChar :: chopStart pathSepChar x) := by
      have h := hresolve []
      rwa [join_nil, join_nil, join_mappingRoot_eq hx] at h
    have hn' := normalForm_join hn hdrive hslash
    -- the text of the longer path is the two paths, joined
    have hjoined : unifySeparators (d ++ pathSepChar :: f) =
        join pathSepChar (unifySeparators d) (unifySeparators f) := by
      rw [join_plain hd0 hf0 hd.stop hf.start, unifySeparators_append]
      rfl
    refine ⟨_, _, join pathSepChar (mappingRoot name) (join pathSepChar x (unifySeparators f)),
      ?_, rfl, hn', ?_, ?_⟩
    · simp only [usfChangeCurrentDirectory,
        norm_relative hshell hcur hn.nameDrive hd.ne_nil hd.drive hd.start true, hnew]
    · have hstart : ¬ pathPrefix <+: unifySeparators f := by
        rintro ⟨t, ht⟩
        exact hf.start (by rw [← ht]; rfl)
      rw [norm_relative hshell' rfl hn'.nameDrive hf.ne_nil hf.drive hstart, resolve,
        if_neg hf.start, join_mappingRoot (Or.inr rfl), ← join_mappingRoot_eq hx, join_assoc]
    · have hne : d ++ pathSepChar :: f ≠ [] := by simp
      have hdrive' : driveChar ∉ d ++ pathSepChar :: f := by
        rw [List.mem_append, List.mem_cons]
        rintro (h | h | h)
        · exact hd.drive h
        · exact absurd h (by decide)
        · exact hf.drive h
      have hstart : ¬ pathPrefix <+: unifySeparators (d ++ pathSepChar :: f) := by
        rw [hjoined, join_plain hd0 hf0 hd.stop hf.start]
        exact not_prefix_append hd0 hd.start hd.stop _
      rw [norm_relative hshell'' hcur hn.nameDrive hne hdrive' hstart, hjoined, hresolve]
  · intro fw s path path' h
    exact ⟨norm_respelled h fw s, change_respelled h fw s⟩
  · intro fw hshell path convert r h fw' s'
    exact norm_idem hshell hcur hn h fw' s'

/-- A machine without volumes and without a shell. -/
def bareFirmware : Firmware where
  platform := ⟨false, 0, false, fun _ => none⟩
  devicePathCompare _ _ := 0
  stack _ := []
  frames _ _ := []
  handles := []
  volumeLabel _ := .error .notFound
  shell := none

/-- The directory is `\\:F0:\a`. -/
def inSubdirectory : UsfPrivateData :=
  { usfInit [] with currentDirectory := some (normalPath (text ['F', '0']) (text ['\\', 'a'])) }

/-- To `b`, and `c/d` from there: `\\:F0:\a\b\c\d`. -/
theorem subdirectory_then_file :
    ∃ s' r, usfChangeCurrentDirectory bareFirmware inSubdirectory (some 1) (some (text ['b'])) =
        .ok (s', .success) ∧
      usfFilePathNorm bareFirmware s' (text ['c', '/', 'd']) true = .ok (.ok r) ∧
      r = normalPath (text ['F', '0'])
        (text ['\\', 'a', '\\', 'b', '\\', 'c', '\\', 'd']) := by
  have hn : NormalForm (text ['F', '0']) (text ['\\', 'a']) :=
    ⟨by decide, by decide, by decide, by decide, by decide⟩
  have hd : DirectoryPath (text ['b']) := ⟨by decide, by decide, by decide, by decide⟩
  have hf : RelativePath (text ['c', '/', 'd']) := ⟨by decide, by decide, by decide⟩
  have hcur : inSubdirectory.currentDirectory =
      some (normalPath (text ['F', '0']) (text ['\\', 'a'])) := rfl
  obtain ⟨s', rest', r, hchange, -, -, hnorm, hlong⟩ :=
    (working_directory_composes hcur hn hd hf).1 bareFirmware bareFirmware bareFirmware rfl rfl rfl
      1 true true
  have hvalue : usfFilePathNorm bareFirmware inSubdirectory
      (text ['b'] ++ pathSepChar :: text ['c', '/', 'd']) true =
        .ok (.ok (normalPath (text ['F', '0'])
          (text ['\\', 'a', '\\', 'b', '\\', 'c', '\\', 'd']))) := rfl
  refine ⟨s', r, hchange, hnorm, ?_⟩
  rw [hvalue] at hlong
  simpa using hlong.symm

/-! ## The stored directory -/

/-- The calls that read or write the current directory. -/
inductive DirCall where
  | change (fw : Firmware) (this : Option Ptr) (curDir : Option Text)
  | get (fw : Firmware)
  | norm (fw : Firmware) (filePath : Text) (convertToDefaultForm : Bool)

/-- One call, with the directory it leaves; where the code stops there is no next state. -/
def dirStep (s : UsfPrivateData) (call : DirCall) :
    Option (UsfPrivateData × List (Option Text)) :=
  match call with
  | .change fw this curDir =>
      match usfChangeCurrentDirectory fw s this curDir with
      | .ok (s', _) => some (s', [s'.currentDirectory])
      | .error _ => none
  | .get fw =>
      match usfGetCurrentDirectory fw s with
      | .ok (s', _) => some (s', [s'.currentDirectory])
      | .error _ => none
  | .norm fw filePath convertToDefaultForm =>
      match usfFilePathNorm fw s filePath convertToDefaultForm with
      | .ok _ => some (s, [s.currentDirectory])
      | .error _ => none

/-- `\\:`, a mapping name ending in ':', and a rest. -/
def MappedForm (path : Text) : Prop :=
  ∃ name rest, driveChar ∉ name ∧ path = normalPath name rest

/-- The stored directory is `NULL` or has the form, and then `SplitDrive` finds both ':'
and a drive. -/
def DirectorySplits (s : UsfPrivateData) : Prop :=
  ∀ cur, s.currentDirectory = some cur →
    MappedForm cur ∧ ∃ drive left, splitDrive cur = .ok (some drive, left)

/-- A path that is not prefixed, or whose prefix is a whole mapping, or a label. -/
def Sound (path : Text) : Prop :=
  ¬ pathPrefix <+: unifySeparators path ∨
  (∃ rest, unifySeparators path = rootTypeInternal ++ rest ∧ driveChar ∈ rest) ∨
  (¬ rootTypeInternal <:+: unifySeparators path ∧ rootTypeLabel <:+: unifySeparators path)

/-- What may become the directory in a call is sound. -/
def SoundCall (_ : UsfPrivateData) : DirCall → Prop
  | .change _ (some _) (some curDir) => Sound curDir
  | .change _ _ _ => True
  | .get fw => ∀ path, fw.shell.bind ShellProtocol.getCurDir = some path → Sound path
  | .norm _ _ _ => True

theorem mappedForm_iff {path : Text} :
    MappedForm path ↔ ∃ rest, path = rootTypeInternal ++ rest ∧ driveChar ∈ rest := by
  constructor
  · rintro ⟨name, rest, -, rfl⟩
    exact ⟨name ++ driveChar :: rest, rfl, by simp⟩
  · rintro ⟨rest, rfl, hmem⟩
    obtain ⟨name, rest', hname, rfl, -⟩ := split_first hmem
    exact ⟨name, rest', hname, rfl⟩

theorem MappedForm.splits {path : Text} (h : MappedForm path) :
    ∃ drive left, splitDrive path = .ok (some drive, left) := by
  obtain ⟨name, rest, hname, rfl⟩ := h
  exact ⟨_, _, splitDrive_normalPath hname rest⟩

theorem directorySplits_iff {s : UsfPrivateData} :
    DirectorySplits s ↔ ∀ cur, s.currentDirectory = some cur → MappedForm cur := by
  constructor
  · intro h cur hcur
    exact (h cur hcur).1
  · intro h cur hcur
    exact ⟨h cur hcur, (h cur hcur).splits⟩

theorem mappedForm_unifiedPath (stem : Text) (curDir path : Option Text) :
    MappedForm (unifiedPath (stem ++ [driveChar]) curDir path) := by
  have hstart := prefix_unifiedPath (stem ++ [driveChar]) (by simp) curDir path
  obtain ⟨t, ht⟩ := hstart
  rw [mappedForm_iff]
  exact ⟨stem ++ [driveChar] ++ t, by rw [← ht, List.append_assoc], by simp⟩

theorem relativeTo_some (mapping : Text) (curDir : Option Text) (u : Text) :
    ∃ curDir' path, relativeTo (some mapping) curDir u = unifiedPath mapping curDir' path := by
  by_cases hhead : u.head? = some pathSepChar
  · exact ⟨none, some (u.drop 1), by simp [relativeTo, hhead]⟩
  · exact ⟨curDir, some u, by simp [relativeTo, hhead]⟩

/-- A path that is not prefixed gets a mapping, whatever branch it takes. -/
theorem mapped_of_unprefixed {fw : Firmware} {s : UsfPrivateData} (hs : DirectorySplits s)
    {u r : Text} (hstart : ¬ pathPrefix <+: u) {convert : Bool}
    (h : normCopy fw s u convert = .ok (.ok r)) : MappedForm r := by
  have hrelative : ∀ stem curDir,
      MappedForm (relativeTo (some (stem ++ [driveChar])) curDir u) := by
    intro stem curDir
    obtain ⟨curDir', path, heq⟩ := relativeTo_some (stem ++ [driveChar]) curDir u
    rw [heq]
    exact mappedForm_unifiedPath stem curDir' path
  rw [normCopy, if_pos hstart] at h
  split at h
  · -- no drive
    unfold normRelative at h
    split at h
    · split at h
      · cases h
      · next cur hcur =>
          -- the mapping is that of the stored directory
          obtain ⟨⟨name, rest, hname, rfl⟩, -⟩ := hs cur hcur
          rw [splitDrive_normalPath hname] at h
          cases h
          exact hrelative name _
    · split at h
      · cases h
      · split at h
        · cases h
        · next mapping hmapping =>
            obtain ⟨stem, rfl, -⟩ := assertMapping_ok hmapping
            split at h
            · cases h
            · cases h
              exact hrelative stem _
  · -- a drive, which the shell knows
    unfold normAbsolute at h
    split at h
    · cases h
    · split at h
      · cases h
      · next mapping hmapping =>
          obtain ⟨stem, rfl, -⟩ := assertMapping_ok hmapping
          cases h
          exact mappedForm_unifiedPath stem none _

/-- Of the results, those that lack the form are the prefixed paths left alone. -/
theorem norm_mapped_iff {fw : Firmware} {s : UsfPrivateData} (hs : DirectorySplits s)
    {path r : Text} (h : usfFilePathNorm fw s path true = .ok (.ok r)) :
    MappedForm r ↔ Sound path := by
  rw [norm_eq] at h
  split at h
  · cases h
  by_cases hstart : pathPrefix <+: unifySeparators path
  · rw [normCopy, if_neg (not_not.mpr hstart)] at h
    split at h
    · next hinternal =>
        have hnot : ¬ rootTypeInternal <:+: unifySeparators path := strStr_eq_none.mp hinternal.2
        split at h
        · -- a label is converted to a mapping
          next tempPath htemp =>
            obtain ⟨stem, path', -, rfl, -⟩ := normLabel_ok h
            have hlabel : rootTypeLabel <:+: unifySeparators path := by
              rw [← strStr_isSome_iff, htemp]
              rfl
            exact iff_of_true (mappedForm_unifiedPath stem none path')
              (Or.inr (Or.inr ⟨hnot, hlabel⟩))
        · next hlabel =>
            -- left alone, and without a mapping
            cases h
            apply iff_of_false
            · intro hmapped
              obtain ⟨rest, hrest, -⟩ := mappedForm_iff.mp hmapped
              apply hnot
              rw [hrest]
              exact (List.prefix_append _ _).isInfix
            · rintro (hnp | ⟨rest, hrest, -⟩ | ⟨-, hin⟩)
              · exact hnp hstart
              · apply hnot
                rw [hrest]
                exact (List.prefix_append _ _).isInfix
              · exact strStr_eq_none.mp hlabel hin
    · -- `\\:` somewhere: left alone, whatever is behind it
      next hinternal =>
        cases h
        have hin : rootTypeInternal <:+: unifySeparators path := by
          by_contra hnot
          exact hinternal ⟨rfl, strStr_eq_none.mpr hnot⟩
        rw [mappedForm_iff]
        constructor
        · intro hform
          exact Or.inr (Or.inl hform)
        · rintro (hnp | hform | ⟨hnot, -⟩)
          · exact absurd hstart hnp
          · exact hform
          · exact absurd hin hnot
  · exact iff_of_true (mapped_of_unprefixed hs hstart h) (Or.inl hstart)

/-- An error status leaves the directory alone, and comes of sound paths only. -/
theorem sound_of_norm_error {fw : Firmware} {s : UsfPrivateData} {path : Text}
    {status : EfiStatus} (h : usfFilePathNorm fw s path true = .ok (.error status)) :
    Sound path := by
  rw [norm_eq] at h
  split at h
  · cases h
  by_cases hstart : pathPrefix <+: unifySeparators path
  · rw [normCopy, if_neg (not_not.mpr hstart)] at h
    split at h
    · next hinternal =>
        split at h
        · next tempPath htemp =>
            right; right
            constructor
            · exact strStr_eq_none.mp hinternal.2
            · rw [← strStr_isSome_iff, htemp]
              rfl
        · cases h
    · cases h
  · exact Or.inl hstart

theorem directorySplits_some {s : UsfPrivateData} {cur : Text} :
    DirectorySplits { s with currentDirectory := some cur } ↔ MappedForm cur := by
  rw [directorySplits_iff]
  constructor
  · intro h
    exact h cur rfl
  · intro h c hc
    cases hc
    exact h

/-- One call: the directory keeps its form exactly if the call is sound. -/
theorem dirStep_splits_iff {s s' : UsfPrivateData} (hs : DirectorySplits s) {call : DirCall}
    {evs : List (Option Text)} (hstep : dirStep s call = some (s', evs)) :
    DirectorySplits s' ↔ SoundCall s call := by
  cases call with
  | change fw this curDir =>
      cases this with
      | none =>
          cases hstep
          exact iff_of_true hs trivial
      | some this =>
          cases curDir with
          | none =>
              cases hstep
              exact iff_of_true hs trivial
          | some curDir =>
              simp only [dirStep, usfChangeCurrentDirectory] at hstep
              cases hnorm : usfFilePathNorm fw s curDir true with
              | error stop => simp [hnorm] at hstep
              | ok result =>
                  cases result with
                  | error status =>
                      -- nothing is stored
                      simp only [hnorm, Option.some.injEq, Prod.mk.injEq] at hstep
                      obtain ⟨rfl, -⟩ := hstep
                      exact iff_of_true hs (sound_of_norm_error hnorm)
                  | ok path =>
                      simp only [hnorm, Option.some.injEq, Prod.mk.injEq] at hstep
                      obtain ⟨rfl, -⟩ := hstep
                      rw [directorySplits_some, norm_mapped_iff hs hnorm]
                      rfl
  | get fw =>
      simp only [dirStep, usfGetCurrentDirectory] at hstep
      cases hget : fw.shell.bind ShellProtocol.getCurDir with
      | none =>
          simp only [hget, Option.some.injEq, Prod.mk.injEq] at hstep
          obtain ⟨rfl, -⟩ := hstep
          exact iff_of_true hs (by simp [SoundCall, hget])
      | some path =>
          -- what the shell says is stored as a change would be
          have hsound : SoundCall s (.get fw) ↔ Sound path := by simp [SoundCall, hget]
          rw [hsound]
          cases hnorm : usfFilePathNorm fw s path true with
          | error stop => simp [hget, hnorm] at hstep
          | ok result =>
              cases result with
              | error status =>
                  simp only [hget, hnorm, Option.some.injEq, Prod.mk.injEq] at hstep
                  obtain ⟨rfl, -⟩ := hstep
                  exact iff_of_true hs (sound_of_norm_error hnorm)
              | ok curDir =>
                  simp only [hget, hnorm, Option.some.injEq, Prod.mk.injEq] at hstep
                  obtain ⟨rfl, -⟩ := hstep
                  rw [directorySplits_some, norm_mapped_iff hs hnorm]
  | norm fw filePath convert =>
      simp only [dirStep] at hstep
      split at hstep
      · cases hstep
        exact iff_of_true hs trivial
      · cases hstep

/-- In every state that sound calls reach, the directory has its form and `SplitDrive`
takes it apart; and the next call keeps that exactly if it is sound. -/
theorem current_directory_splits {table : List DevicePath} {s : UsfPrivateData}
    {h : List (Option Text)} (hr : Reach dirStep SoundCall (usfInit table) s h) :
    DirectorySplits s ∧ ∀ call s' evs, dirStep s call = some (s', evs) →
      (DirectorySplits s' ↔ SoundCall s call) := by
  have hsplits : DirectorySplits s := by
    refine hr.invariant (fun s _ => DirectorySplits s) ?_ ?_
    · intro cur hcur
      cases hcur
    · intro s s' _ evs call hs hok hstep
      exact (dirStep_splits_iff hs hstep).mpr hok
  exact ⟨hsplits, fun _ _ _ hstep => dirStep_splits_iff hsplits hstep⟩

/-- To `b` without a directory, then to `\\:F0:\a`, then to `b` from there. -/
def mappedRun : List DirCall :=
  [.change bareFirmware (some 1) (some (text ['b'])),
    .change bareFirmware (some 1) (some (normalPath (text ['F', '0']) (text ['\\', 'a']))),
    .change bareFirmware (some 1) (some (text ['b']))]

theorem mapped_run_splits : ∃ s h, run dirStep (usfInit []) mappedRun = some (s, h) ∧
    h = [none, some (normalPath (text ['F', '0']) (text ['\\', 'a'])),
      some (normalPath (text ['F', '0']) (text ['\\', 'a', '\\', 'b']))] ∧
    DirectorySplits s := by
  have hrun : ∃ s h, run dirStep (usfInit []) mappedRun = some (s, h) ∧
      h = [none, some (normalPath (text ['F', '0']) (text ['\\', 'a'])),
        some (normalPath (text ['F', '0']) (text ['\\', 'a', '\\', 'b']))] :=
    ⟨_, _, rfl, rfl⟩
  obtain ⟨s, h, hs, hh⟩ := hrun
  have hb : Sound (text ['b']) := Or.inl (by decide)
  have ha : Sound (normalPath (text ['F', '0']) (text ['\\', 'a'])) :=
    Or.inr (Or.inl ⟨text ['F', '0', ':', '\\', 'a'], rfl, by decide⟩)
  have hg : Guarded dirStep SoundCall (usfInit []) mappedRun := by
    refine ⟨hb, fun s' _ _ => ⟨ha, fun s'' _ _ => ⟨hb, fun _ _ _ => trivial⟩⟩⟩
  exact ⟨s, h, hs, hh, (current_directory_splits (Reach.of_run hg hs)).1⟩

/-- Any string may be given: `\\foo` is stored as it is, and `SplitDrive` then computes a
length from `NULL`. -/
theorem prefixed_directory_stored :
    ¬ ∀ (table : List DevicePath) (s : UsfPrivateData) (h : List (Option Text)),
      Reach dirStep (fun _ _ => True) (usfInit table) s h → DirectorySplits s := by
  intro hclaim
  have hg : Guarded dirStep (fun _ _ => True) (usfInit [])
      [.change bareFirmware (some 1) (some (text ['\\', '\\', 'f', 'o', 'o']))] := by
    simp [Guarded]
  have hreach := Reach.of_run (s := { usfInit [] with
    currentDirectory := some (text ['\\', '\\', 'f', 'o', 'o']) }) hg rfl
  obtain ⟨-, drive, left, hsplit⟩ := hclaim _ _ _ hreach _ rfl
  have hstop : splitDrive (text ['\\', '\\', 'f', 'o', 'o']) = .error .nullPointer := rfl
  rw [hstop] at hsplit
  cases hsplit

/-! ## Without a shell -/

/-- The parts are cut out of the path. -/
theorem splitDrive_subset {path : Text} {drive left : Option Text}
    (h : splitDrive path = .ok (drive, left)) :
    (∀ c ∈ drive.getD [], c ∈ path) ∧ ∀ c ∈ left.getD [], c ∈ path := by
  by_cases hmem : driveChar ∈ path
  · obtain ⟨a, b, ha, rfl, hfirst⟩ := split_first hmem
    by_cases hmem' : driveChar ∈ b
    · obtain ⟨b, c, hb, rfl, -⟩ := split_first hmem'
      rw [splitDrive_eq ha hb] at h
      cases h
      constructor
      · intro d hd
        have hd' : d ∈ b ++ [driveChar] := hd
        simp only [List.mem_append, List.mem_cons] at hd' ⊢
        tauto
      · intro d hd
        split at hd
        · cases hd
        · have hd' : d ∈ c := hd
          simp [hd']
    · have hnone : strStr b [driveChar] = none := strStr_singleton_none.mpr hmem'
      simp only [splitDrive, hfirst, List.drop_succ_cons, List.drop_zero, hnone,
        Except.ok.injEq, Prod.mk.injEq] at h
      obtain ⟨rfl, rfl⟩ := h
      simp
  · simp [splitDrive, strStr_singleton_none.mpr hmem] at h

/-- No '/' gets into a result, if there is none in the directory. -/
theorem slash_notMem_norm {fw : Firmware} (hshell : fw.shell = none) {s : UsfPrivateData}
    (hcur : ∀ cur, s.currentDirectory = some cur → ch '/' ∉ cur) {path r : Text} {convert : Bool}
    (h : usfFilePathNorm fw s path convert = .ok (.ok r)) : ch '/' ∉ r := by
  have hslash := slash_notMem_unifySeparators path
  rw [norm_eq] at h
  split at h
  · cases h
  rw [normCopy] at h
  split at h
  · split at h
    · -- a path without a volume goes on from the stored directory
      simp only [normRelative, hshell] at h
      split at h
      · cases h
      · next cur hsome =>
          split at h
          · cases h
          · next mapping curDir hsplit =>
              cases h
              obtain ⟨hdrive, hleft⟩ := splitDrive_subset hsplit
              have hno := hcur cur hsome
              cases mapping with
              | none =>
                  simpa [relativeTo] using hslash
              | some mapping =>
                  rw [relativeTo]
                  by_cases hhead : (unifySeparators path).head? = some pathSepChar
                  · simp only [hhead, if_true]
                    exact slash_notMem_unifiedPath (fun hm => hno (hdrive _ hm)) (by simp)
                      (fun hm => hslash (List.mem_of_mem_drop hm))
                  · simp only [hhead, if_false]
                    exact slash_notMem_unifiedPath (fun hm => hno (hdrive _ hm))
                      (fun hm => hno (hleft _ hm)) hslash
    · simp only [normAbsolute, hshell] at h
      cases h
  · split at h
    · split at h
      · next tempPath htemp =>
          -- a path with the label of a volume gets the name of the volume
          obtain ⟨stem, path', hstem, rfl, hpath⟩ := normLabel_ok h
          apply slash_notMem_unifiedPath (slash_notMem_name hstem) (by simp)
          intro hmem
          exact hslash ((strStr_eq_some htemp).2.subset (hpath _ hmem))
      · cases h
        exact hslash
    · cases h
      exact hslash

/-- No shell takes part in a call. -/
def NoShell (_ : UsfPrivateData) : DirCall → Prop
  | .change fw _ _ | .get fw | .norm fw _ _ => fw.shell = none

/-- Without a shell the stored directory is written with '\' only. -/
theorem directory_slash_free {table : List DevicePath} {s : UsfPrivateData}
    {h : List (Option Text)} (hr : Reach dirStep NoShell (usfInit table) s h) :
    ∀ cur, s.currentDirectory = some cur → ch '/' ∉ cur := by
  refine hr.invariant (fun s _ => ∀ cur, s.currentDirectory = some cur → ch '/' ∉ cur) ?_ ?_
  · intro cur hcur
    cases hcur
  · intro s s' _ evs call hinv hshell hstep
    cases call with
    | change fw this curDir =>
        simp only [dirStep, usfChangeCurrentDirectory] at hstep
        split at hstep
        · next s₁ status hchange =>
            cases hstep
            split at hchange
            · split at hchange
              · cases hchange
              · cases hchange
                exact hinv
              · next path hnorm =>
                  cases hchange
                  intro cur hcur
                  cases hcur
                  exact slash_notMem_norm hshell hinv hnorm
            · cases hchange
              exact hinv
        · cases hstep
    | get fw =>
        have hget : fw.shell.bind ShellProtocol.getCurDir = none := by
          rw [show fw.shell = none from hshell]
          rfl
        simp only [dirStep, usfGetCurrentDirectory, hget] at hstep
        cases hstep
        exact hinv
    | norm fw filePath convert =>
        simp only [dirStep] at hstep
        split at hstep
        · cases hstep
          exact hinv
        · cases hstep

end EfiLvgl.Usf
