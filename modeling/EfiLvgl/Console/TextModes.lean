import EfiLvgl.Console.Model
import EfiLvgl.Lib.Buffer

/-!
# EfiLvgl.Console.TextModes — the modes of the virtual console

`InitializeVirtualConsoleTextMode` asks the console of the system for its modes and adds the
default ones. It is the modes of the system that it looks for among the default ones, and not the
other way round: for each that is not found there it copies the entry behind the table. So the
modes are right only where the system has the default ones and no others (`textModes_iff`).
-/

namespace EfiLvgl.Console

/-- `mTerminalConsoleModeData`. -/
def mTerminalConsoleModeData : List ModeData := [⟨80, 25⟩, ⟨80, 50⟩, ⟨100, 31⟩]

/-- What `gST->ConOut->QueryMode` does: on an error it may have written to the entry or not. -/
inductive Query where
  | success (data : ModeData)
  | error (written : Option ModeData)
deriving DecidableEq, Repr

/-- The mode of a query that succeeds. -/
def Query.mode : Query → Option ModeData
  | .success data => some data
  | .error _ => none

/-- `TextModeData` and `*TextModeCount`, and the places of `mTerminalConsoleModeData` that were
read. -/
structure TextModes where
  data : Buffer ModeData
  count : Nat
  reads : List Nat
deriving DecidableEq, Repr

/-- The loop that fills in the modes of the system. -/
def TextModes.query (t : TextModes) : Query → TextModes
  | .success data => { t with data := t.data.put t.count data, count := t.count + 1 }
  | .error none => t
  | .error (some data) => { t with data := t.data.put t.count data }

/-- Where a mode is in `mTerminalConsoleModeData`. -/
def defaultIndex (mode : ModeData) : Nat := mTerminalConsoleModeData.findIdx (· = mode)

/-- A mode that is not among the default ones: the entry that the search has ended at is added;
`beyond` is behind the table. -/
def TextModes.lookUp (t : TextModes) (beyond mode : ModeData) : TextModes :=
  let index := defaultIndex mode
  let t := { t with
    reads := t.reads ++ List.range (min (index + 1) mTerminalConsoleModeData.length) }
  if index = mTerminalConsoleModeData.length then
    { data := t.data.put t.count (mTerminalConsoleModeData.getD index beyond)
      count := t.count + 1
      reads := t.reads ++ [index] }
  else t

/-- The loop over the modes in `TextModeData`, from the last one on. An entry that nothing was
written to reads as `beyond` too. -/
def addDefaults (beyond : ModeData) : Nat → TextModes → TextModes
  | 0, t => t
  | mode + 1, t =>
      addDefaults beyond mode (t.lookUp beyond ((t.data.places.getD mode none).getD beyond))

/-- `InitializeVirtualConsoleTextMode`; there is a query for each of `MaxMode` modes. -/
def initializeVirtualConsoleTextMode (beyond : ModeData) (queries : List Query) : TextModes :=
  let t := queries.foldl TextModes.query
    ⟨.new (mTerminalConsoleModeData.length + queries.length), 0, []⟩
  addDefaults beyond t.count t

/-! ## What is asked for -/

/-- The modes of the system. -/
def systemModes (queries : List Query) : List ModeData := queries.filterMap Query.mode

/-- The buffer and the table are kept, and the modes are those of the system and the default ones
that are not among them. -/
structure TextModesRight (beyond : ModeData) (queries : List Query) : Prop where
  stores : (initializeVirtualConsoleTextMode beyond queries).data.overrun = false
  reads : ∀ i ∈ (initializeVirtualConsoleTextMode beyond queries).reads,
    i < mTerminalConsoleModeData.length
  modes : ∃ added, added.Perm (mTerminalConsoleModeData.filter (· ∉ systemModes queries)) ∧
    (initializeVirtualConsoleTextMode beyond queries).data.places.take
        (initializeVirtualConsoleTextMode beyond queries).count =
      (systemModes queries ++ added).map some

/-! ## The modes of the system -/

theorem defaultIndex_eq_length (mode : ModeData) :
    defaultIndex mode = mTerminalConsoleModeData.length ↔ mode ∉ mTerminalConsoleModeData := by
  rw [defaultIndex, List.findIdx_eq_length]
  constructor
  · intro h hmem
    simpa using h mode hmem
  · intro h x hx
    rw [decide_eq_false_iff_not]
    rintro rfl
    exact h hx

/-- The queries fill the buffer from the front, and leave room for the default modes. -/
structure Filled (t : TextModes) (size : Nat) (modes : List ModeData) : Prop where
  length : t.data.places.length = size
  overrun : t.data.overrun = false
  count : t.count = modes.length
  modes : t.data.places.take t.count = modes.map some
  reads : t.reads = []

theorem Filled.query {t : TextModes} {size : Nat} {modes : List ModeData} (h : Filled t size modes)
    (hroom : modes.length < size) (q : Query) :
    Filled (t.query q) size (modes ++ q.mode.toList) := by
  rcases h with ⟨hlength, hoverrun, hcount, hmodes, hreads⟩
  have hput : ∀ data, (t.data.put t.count data).places = t.data.places.set t.count (some data) ∧
      (t.data.put t.count data).overrun = false := by
    intro data
    rw [Buffer.put, if_pos (by omega)]
    exact ⟨rfl, hoverrun⟩
  cases q with
  | success data =>
      rcases hput data with ⟨hplaces, hover⟩
      refine ⟨?_, hover, ?_, ?_, hreads⟩
      · exact (Buffer.length_put _ _ _).trans hlength
      · show t.count + 1 = (modes ++ [data]).length
        rw [List.length_append, hcount, List.length_singleton]
      · show (t.data.put t.count data).places.take (t.count + 1) = (modes ++ [data]).map some
        rw [hplaces, List.take_succ_eq_append_getElem (by rw [List.length_set]; omega),
          List.take_set_of_le (Nat.le_refl _), List.getElem_set_self, hmodes, List.map_append]
        rfl
  | error written =>
      -- what it has written is not counted, so that the next query writes over it
      rw [Query.mode, Option.toList_none, List.append_nil]
      cases written with
      | none => exact ⟨hlength, hoverrun, hcount, hmodes, hreads⟩
      | some data =>
          rcases hput data with ⟨hplaces, hover⟩
          refine ⟨?_, hover, hcount, ?_, hreads⟩
          · exact (Buffer.length_put _ _ _).trans hlength
          · show (t.data.put t.count data).places.take t.count = modes.map some
            rw [hplaces, List.take_set_of_le (Nat.le_refl _), hmodes]

theorem Filled.queries {size : Nat} (queries : List Query) {t : TextModes} {modes : List ModeData}
    (h : Filled t size modes) (hroom : modes.length + queries.length ≤ size) :
    Filled (queries.foldl TextModes.query t) size (modes ++ systemModes queries) := by
  induction queries generalizing t modes with
  | nil => simpa [systemModes] using h
  | cons q queries ih =>
      rw [List.length_cons] at hroom
      have hlen : q.mode.toList.length ≤ 1 := by cases q <;> simp [Query.mode]
      have hnext := ih (h.query (by omega) q) (by rw [List.length_append]; omega)
      have hmodes : systemModes (q :: queries) = q.mode.toList ++ systemModes queries := by
        cases q <;> rfl
      rw [hmodes, ← List.append_assoc]
      exact hnext

/-! ## The default modes -/

/-- A mode that is found changes nothing but what has been read. -/
theorem lookUp_mem (t : TextModes) (beyond : ModeData) {mode : ModeData}
    (h : mode ∈ mTerminalConsoleModeData) :
    ∃ reads, t.lookUp beyond mode = { t with reads := t.reads ++ reads } ∧
      ∀ i ∈ reads, i < mTerminalConsoleModeData.length := by
  have hindex : defaultIndex mode ≠ mTerminalConsoleModeData.length := by
    rw [Ne, defaultIndex_eq_length]
    exact fun hnot => hnot h
  refine ⟨List.range (min (defaultIndex mode + 1) mTerminalConsoleModeData.length), ?_, ?_⟩
  · rw [TextModes.lookUp]
    exact if_neg hindex
  · intro i hi
    rw [List.mem_range] at hi
    omega

theorem reads_lookUp (t : TextModes) (beyond mode : ModeData) :
    ∃ reads, (t.lookUp beyond mode).reads = t.reads ++ reads ∧
      (mode ∉ mTerminalConsoleModeData → mTerminalConsoleModeData.length ∈ reads) := by
  by_cases h : mode ∈ mTerminalConsoleModeData
  · rcases lookUp_mem t beyond h with ⟨reads, heq, -⟩
    exact ⟨reads, by rw [heq], fun hnot => absurd h hnot⟩
  · have hindex := (defaultIndex_eq_length mode).mpr h
    refine ⟨List.range (min (defaultIndex mode + 1) mTerminalConsoleModeData.length) ++
      [defaultIndex mode], ?_, fun _ => by rw [hindex]; simp⟩
    rw [TextModes.lookUp]
    dsimp only
    rw [if_pos hindex, List.append_assoc]

/-- What has been read is not forgotten. -/
theorem reads_addDefaults (beyond : ModeData) (mode : Nat) (t : TextModes) :
    ∃ reads, (addDefaults beyond mode t).reads = t.reads ++ reads := by
  induction mode generalizing t with
  | zero => exact ⟨[], (List.append_nil _).symm⟩
  | succ mode ih =>
      rcases ih (t.lookUp beyond ((t.data.places.getD mode none).getD beyond)) with ⟨reads, hreads⟩
      rcases reads_lookUp t beyond ((t.data.places.getD mode none).getD beyond) with
        ⟨before, hbefore, -⟩
      refine ⟨before ++ reads, ?_⟩
      rw [addDefaults, hreads, hbefore, List.append_assoc]

/-- The entry of a mode. -/
theorem entry_eq {t : TextModes} {modes : List ModeData} {mode : Nat} {data : ModeData}
    (h : t.data.places.take (mode + 1) = (modes ++ [data]).map some) (hlen : modes.length = mode)
    (beyond : ModeData) : (t.data.places.getD mode none).getD beyond = data := by
  have hentry : (t.data.places.take (mode + 1))[mode]? = some (some data) := by
    rw [h, List.map_append, List.getElem?_append_right (by rw [List.length_map, hlen]),
      List.length_map, hlen, Nat.sub_self]
    rfl
  rw [List.getElem?_take_of_lt (Nat.lt_succ_self mode)] at hentry
  rw [List.getD_eq_getElem?_getD, hentry]
  rfl

/-- Modes that are all found are left as they are; for one that is not, the entry behind the table
is read. -/
theorem addDefaults_cases (beyond : ModeData) {modes : List ModeData} {t : TextModes}
    (h : t.data.places.take modes.length = modes.map some) :
    ((∀ m ∈ modes, m ∈ mTerminalConsoleModeData) ∧
        ∃ reads, addDefaults beyond modes.length t = { t with reads := t.reads ++ reads } ∧
          ∀ i ∈ reads, i < mTerminalConsoleModeData.length) ∨
      (∃ m ∈ modes, m ∉ mTerminalConsoleModeData) ∧
        mTerminalConsoleModeData.length ∈ (addDefaults beyond modes.length t).reads := by
  -- from the last mode down, as the loop goes
  induction modes using List.reverseRecOn generalizing t with
  | nil =>
      refine .inl ⟨by simp, [], ?_, by simp⟩
      rw [List.append_nil]
      rfl
  | append_singleton modes data ih =>
      rw [List.length_append, List.length_singleton] at h ⊢
      rw [addDefaults, entry_eq h rfl beyond]
      have hrest : t.data.places.take modes.length = modes.map some := by
        have htake := congrArg (List.take modes.length) h
        rw [List.take_take, Nat.min_eq_left (Nat.le_succ _), List.map_append,
          List.take_left' (List.length_map _)] at htake
        exact htake
      by_cases hdata : data ∈ mTerminalConsoleModeData
      · rcases lookUp_mem t beyond hdata with ⟨reads, heq, hreads⟩
        rw [heq]
        rcases ih (t := { t with reads := t.reads ++ reads }) hrest with
          ⟨hall, reads', heq', hreads'⟩ | ⟨⟨m, hm, hother⟩, hbehind⟩
        · refine .inl ⟨?_, reads ++ reads', ?_, ?_⟩
          · rw [List.forall_mem_append, List.forall_mem_singleton]
            exact ⟨hall, hdata⟩
          · rw [heq', List.append_assoc]
          · rw [List.forall_mem_append]
            exact ⟨hreads, hreads'⟩
        · exact .inr ⟨⟨m, List.mem_append_left _ hm, hother⟩, hbehind⟩
      · -- the search has run through the table, and goes on to the entry behind it
        rcases reads_lookUp t beyond data with ⟨before, hbefore, hbehind⟩
        rcases reads_addDefaults beyond modes.length (t.lookUp beyond data) with ⟨reads, hreads⟩
        refine .inr ⟨⟨data, by simp, hdata⟩, ?_⟩
        rw [hreads, hbefore]
        simp [hbehind hdata]

/-! ## All lists of modes -/

/-- The modes are right exactly when those of the system are the default ones. -/
theorem textModes_iff (beyond : ModeData) (queries : List Query) :
    TextModesRight beyond queries ↔
      ∀ m, m ∈ systemModes queries ↔ m ∈ mTerminalConsoleModeData := by
  have hnew : Filled (⟨.new (mTerminalConsoleModeData.length + queries.length), 0, []⟩ : TextModes)
      (mTerminalConsoleModeData.length + queries.length) [] :=
    ⟨List.length_replicate, rfl, rfl, rfl, rfl⟩
  have hfilled := hnew.queries queries (by rw [List.length_nil]; omega)
  rw [List.nil_append] at hfilled
  have hinit : initializeVirtualConsoleTextMode beyond queries =
      addDefaults beyond (systemModes queries).length (queries.foldl TextModes.query
        ⟨.new (mTerminalConsoleModeData.length + queries.length), 0, []⟩) := by
    rw [← hfilled.count]
    rfl
  generalize queries.foldl TextModes.query
    ⟨.new (mTerminalConsoleModeData.length + queries.length), 0, []⟩ = t at hfilled hinit
  have hmodes := hfilled.modes
  rw [hfilled.count] at hmodes
  rcases addDefaults_cases beyond hmodes with ⟨hall, reads, heq, hreads⟩ |
    ⟨⟨m, hm, hother⟩, hbehind⟩
  · -- nothing is added, so that no default mode may be missing
    rw [heq] at hinit
    have hfilter : (∀ m, m ∈ systemModes queries ↔ m ∈ mTerminalConsoleModeData) ↔
        mTerminalConsoleModeData.filter (· ∉ systemModes queries) = [] := by
      rw [List.filter_eq_nil_iff]
      constructor
      · intro h m hm
        simpa using (h m).mpr hm
      · intro h m
        exact ⟨hall m, fun hm => by simpa using h m hm⟩
    rw [hfilter]
    constructor
    · rintro ⟨-, -, added, hperm, hdata⟩
      rw [hinit] at hdata
      dsimp only at hdata
      rw [hfilled.count, hmodes, List.map_append] at hdata
      have hadded : added = [] := by
        have hnil := List.self_eq_append_right.mp hdata
        exact List.map_eq_nil_iff.mp hnil
      rw [hadded] at hperm
      exact hperm.symm.eq_nil
    · intro hnil
      refine ⟨?_, ?_, [], ?_, ?_⟩
      · rw [hinit]
        exact hfilled.overrun
      · rw [hinit, hfilled.reads]
        exact hreads
      · rw [hnil]
      · rw [hinit, List.append_nil]
        dsimp only
        rw [hfilled.count, hmodes]
  · -- the entry behind the table is read, because of a mode that is no default one
    constructor
    · intro hright
      have hlt := hright.reads _ (hinit ▸ hbehind)
      exact absurd hlt (Nat.lt_irrefl _)
    · intro h
      exact absurd ((h m).mp hm) hother

/-- The modes of the virtual console are right, whatever those of the system are. -/
def AllTextModesRight : Prop := ∀ beyond queries, TextModesRight beyond queries

/-- Without modes of the system there are none at all. -/
theorem no_modes_added : ¬ AllTextModesRight := by
  intro h
  rcases (h ⟨0, 0⟩ []).modes with ⟨added, hperm, htaken⟩
  have hcount : (initializeVirtualConsoleTextMode ⟨0, 0⟩ []).count = 0 := rfl
  have hmodes : systemModes [] = [] := rfl
  rw [hcount, hmodes, List.take_zero, List.nil_append] at htaken
  have hnone : added = [] := by
    cases added with
    | nil => rfl
    | cons m rest => cases htaken
  have hlength := hperm.length_eq
  rw [hnone] at hlength
  exact absurd hlength (by decide)

end EfiLvgl.Console
