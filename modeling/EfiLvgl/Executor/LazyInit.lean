import EfiLvgl.Executor.Model

/-!
# EfiLvgl.Executor.LazyInit — initialisation on first use

`ScriptEngineProtocol` doubles as the flag "the interpreter is initialised":
four entry points call `UpyInit` when it is `NULL`, the clean-up after a script
that is not sharable destroys the interpreter and clears it again.

`UpyExecute` looks at what `UpyInit` returns. `UpyExecuteAsync`, `UpySetArgs` and
`UpySetPath` do not: when the heap cannot be allocated they set the flag all the
same (`failed_init_sets_protocol`). In every run in which `UpyInit` does not fail
in one of these three (`InitWatched`) the flag is right in every state
(`protocol_iff_initialised`).
-/

namespace EfiLvgl.Executor

open EfiLvgl.Run

/-! ## Which calls initialise -/

/-- The call gets to its `UpyInit`. -/
def Lbl.initialises (s : Sys) : Lbl → Prop
  | .execute _ _ _ _ _ => s.data.isRunning = false ∧ s.data.scriptEngineProtocol = none
  | .executeAsync _ source length _ _ =>
      source ≠ none ∧ length ≠ 0 ∧ s.data.isRunning = false ∧ s.data.scriptEngineProtocol = none
  | .setArgs this argv _ => this ≠ none ∧ argv ≠ none ∧ s.data.scriptEngineProtocol = none
  | .setPath this _ _ => this ≠ none ∧ s.data.scriptEngineProtocol = none
  | _ => False

/-- `UpyInit` succeeds, if it is called. -/
def Lbl.initOk : Lbl → Bool
  | .execute _ _ _ _ env => env.heapOk
  | .executeAsync _ _ _ _ env => env.heapOk
  | .setArgs _ _ env => env.heapOk
  | .setPath _ _ env => env.heapOk
  | _ => true

/-- The protocol passed to a call that initialises; the two calls that do not
check it are given one. -/
def Given (s : Sys) : Lbl → Prop
  | .execute this source length sharable env =>
      (Lbl.execute this source length sharable env).initialises s → this ≠ none
  | .executeAsync this source length sharable env =>
      (Lbl.executeAsync this source length sharable env).initialises s → this ≠ none
  | _ => True

/-- `UpyInit` only fails where its result is looked at, in `UpyExecute`. -/
def InitWatched (s : Sys) (l : Lbl) : Prop :=
  Given s l ∧ (l.initialises s → l.initOk = false →
    ∃ this source length sharable env, l = .execute this source length sharable env)

/-! ## The flag -/

/-- `ScriptEngineProtocol` is non-`NULL` exactly when the interpreter has been
initialised and not destroyed since. -/
def FlagOk (s : Sys) : Prop := s.data.scriptEngineProtocol ≠ none ↔ s.initialised = true

theorem flagOk_initial (dirs : List Str8) : FlagOk (initial dirs) := by
  simp [FlagOk, initial, useInit, upyInit]

/-- The functions around the script leave the flag and the interpreter alone. -/
def SameFlag (s t : Sys) : Prop :=
  t.data.scriptEngineProtocol = s.data.scriptEngineProtocol ∧ t.initialised = s.initialised

theorem SameFlag.flagOk {s t : Sys} (h : SameFlag s t) (hs : FlagOk s) : FlagOk t := by
  unfold FlagOk
  rw [h.1, h.2]
  exact hs

theorem sameFlag_scriptExecutor (s : Sys) (sync : Bool) :
    SameFlag s (scriptExecutor s sync).1 := by
  unfold scriptExecutor switchStack longJumpEngine upyDoScript
  dsimp only
  split
  · split
    · split <;> exact ⟨rfl, rfl⟩
    · exact ⟨rfl, rfl⟩
  · split
    · split <;> exact ⟨rfl, rfl⟩
    · exact ⟨rfl, rfl⟩

/-- The clean-up destroys the interpreter together with the flag. -/
theorem flagOk_cleanUp {s : Sys} (h : FlagOk s) : FlagOk (cleanUp s) := by
  unfold cleanUp
  cases hst : s.data.scriptEngineStack <;> cases hd : s.data.deinitAfterwards
  · simpa [FlagOk, hd] using h
  · simp [FlagOk, hd, upyDeinit]
  · simpa [FlagOk, hd] using h
  · simp [FlagOk, hd, upyDeinit]

theorem flagOk_longJumpExecutor {s : Sys} (value : Nat) (h : FlagOk s) :
    FlagOk (longJumpExecutor s value).1 := by
  unfold longJumpExecutor
  split
  · rename_i sync rest _
    unfold scriptExecutorBack
    split
    · dsimp only
      split
      · exact h
      · exact h
    · exact flagOk_cleanUp h
  · exact h

theorem flagOk_upySuspend {s : Sys} {ms : Nat} {r : Sys × List Event} (h : FlagOk s)
    (hs : upySuspend s ms = some r) : FlagOk r.1 := by
  unfold upySuspend at hs
  split at hs
  · split at hs
    · obtain rfl := Option.some.inj hs
      exact h
    · obtain rfl := Option.some.inj hs
      exact flagOk_longJumpExecutor _ h
  · cases hs

theorem flagOk_upyDoScriptEnd {s : Sys} {ret : Int} {r : Sys × List Event} (h : FlagOk s)
    (hs : upyDoScriptEnd s ret = some r) : FlagOk r.1 := by
  unfold upyDoScriptEnd at hs
  split at hs
  · dsimp only at hs
    split at hs
    · obtain rfl := Option.some.inj hs
      exact flagOk_longJumpExecutor _ h
    · obtain rfl := Option.some.inj hs
      exact h
  · cases hs

theorem flagOk_fire {s : Sys} {event : Nat} {r : Sys × List Event} (h : FlagOk s)
    (hs : fire s event = some r) : FlagOk r.1 := by
  unfold fire at hs
  split at hs
  · obtain rfl := Option.some.inj hs
    exact (sameFlag_scriptExecutor _ _).flagOk h
  · cases hs

/-! ## The entry points -/

theorem flagOk_initOnFirstUse {s : Sys} {this : Option Ptr} {env : InitEnv} (h : FlagOk s)
    (hok : s.data.scriptEngineProtocol = none → this ≠ none ∧ env.heapOk = true) :
    FlagOk (initOnFirstUse s this env) := by
  unfold initOnFirstUse
  by_cases hp : s.data.scriptEngineProtocol = none
  · obtain ⟨hthis, henv⟩ := hok hp
    simpa [FlagOk, hp, upyInit, henv] using hthis
  · simpa [hp] using h

theorem flagOk_upyExecuteStart {s : Sys} (h : FlagOk s) (source : Option Ptr) (length : Nat)
    (sharable : Bool) : FlagOk (upyExecuteStart s source length sharable).1 :=
  (sameFlag_scriptExecutor _ _).flagOk h

theorem flagOk_upyExecute {s : Sys} {this source : Option Ptr} {length : Nat} {sharable : Bool}
    {env : InitEnv} (h : FlagOk s)
    (hok : InitWatched s (.execute this source length sharable env)) :
    FlagOk (upyExecute s this source length sharable env).1 := by
  unfold upyExecute
  by_cases hrun : s.data.isRunning = true
  · simpa [hrun] using h
  · by_cases hp : s.data.scriptEngineProtocol = none
    · have hthis : this ≠ none := hok.1 ⟨by simpa using hrun, hp⟩
      cases henv : env.heapOk with
      | true =>
        simp only [hrun, hp, upyInit, henv, if_true, Bool.false_eq_true, if_false]
        apply flagOk_upyExecuteStart
        simpa [FlagOk] using hthis
      -- `UpyExecute` returns the error: neither the flag nor the interpreter has changed
      | false => simpa [hrun, hp, upyInit, henv, FlagOk] using h
    · simp only [hrun, hp, Bool.false_eq_true, if_false]
      exact flagOk_upyExecuteStart h source length sharable

theorem flagOk_upyExecuteAsync {s : Sys} {this source : Option Ptr} {length : Nat}
    {sharable : Bool} {env : InitEnv} (h : FlagOk s)
    (hok : InitWatched s (.executeAsync this source length sharable env)) :
    FlagOk (upyExecuteAsync s this source length sharable env).1 := by
  unfold upyExecuteAsync
  by_cases hargs : source = none ∨ length = 0
  · simpa [hargs] using h
  · by_cases hrun : s.data.isRunning = true
    · simpa [hargs, hrun] using h
    · have hinit : FlagOk (initOnFirstUse s this env) := by
        apply flagOk_initOnFirstUse h
        intro hp
        rw [not_or] at hargs
        have hi : (Lbl.executeAsync this source length sharable env).initialises s :=
          ⟨hargs.1, hargs.2, by simpa using hrun, hp⟩
        -- the status is ignored here, so the condition on the step has to rule failure out
        refine ⟨hok.1 hi, ?_⟩
        by_contra henv
        obtain ⟨_, _, _, _, _, hl⟩ := hok.2 hi (by simpa [Lbl.initOk] using henv)
        cases hl
      simpa [hargs, hrun, allocateStack, FlagOk] using hinit

theorem flagOk_upySetArgs {s : Sys} {this : Option Ptr} {argv : Option (List (Option Str16))}
    {env : InitEnv} (h : FlagOk s) (hok : InitWatched s (.setArgs this argv env)) :
    FlagOk (upySetArgs s this argv env).1 := by
  unfold upySetArgs
  cases argv with
  | none => exact h
  | some args =>
    by_cases hthis : this = none
    · simpa [hthis] using h
    · simp only [hthis, if_false]
      refine (?_ : FlagOk (initOnFirstUse s this env))
      apply flagOk_initOnFirstUse h
      intro hp
      refine ⟨hthis, ?_⟩
      by_contra henv
      obtain ⟨_, _, _, _, _, hl⟩ := hok.2 ⟨hthis, by simp, hp⟩ (by simpa [Lbl.initOk] using henv)
      cases hl

theorem flagOk_upySetPath {s : Sys} {this : Option Ptr} {path : Option Str16} {env : InitEnv}
    (h : FlagOk s) (hok : InitWatched s (.setPath this path env)) :
    FlagOk (upySetPath s this path env).1 := by
  unfold upySetPath
  by_cases hthis : this = none
  · simpa [hthis] using h
  · have hinit : FlagOk (initOnFirstUse s this env) := by
      apply flagOk_initOnFirstUse h
      intro hp
      refine ⟨hthis, ?_⟩
      by_contra henv
      obtain ⟨_, _, _, _, _, hl⟩ := hok.2 ⟨hthis, hp⟩ (by simpa [Lbl.initOk] using henv)
      cases hl
    cases path <;> simpa [hthis, FlagOk] using hinit

/-! ## Runs -/

theorem flagOk_step {s s' : Sys} {l : Lbl} {evs : List Event} (h : FlagOk s)
    (hok : InitWatched s l) (hs : step s l = some (s', evs)) : FlagOk s' := by
  unfold step at hs
  split at hs
  · cases l with
    | execute this source length sharable env =>
      have hr := flagOk_upyExecute h hok
      rwa [Option.some.inj hs] at hr
    | executeAsync this source length sharable env =>
      have hr := flagOk_upyExecuteAsync h hok
      rwa [Option.some.inj hs] at hr
    | setArgs this argv env =>
      have hr := flagOk_upySetArgs h hok
      rwa [Option.some.inj hs] at hr
    | setPath this path env =>
      have hr := flagOk_upySetPath h hok
      rwa [Option.some.inj hs] at hr
    | fire event => exact flagOk_fire h hs
    | suspend ms => exact flagOk_upySuspend h hs
    | complete ret => exact flagOk_upyDoScriptEnd h hs
  · cases hs

/-- The flag is right, and a call whose `UpyInit` fails returns that error and leaves
the record, with its `NULL` protocol, as it was. -/
def LazyInitAt (ok : Sys → Lbl → Prop) (s : Sys) : Prop :=
  FlagOk s ∧
    ∀ l : Lbl, ok s l → s.fault = none → l.initialises s → l.initOk = false →
      ∃ s', step s l = some (s', [.returned .outOfResources]) ∧
        s'.data = s.data ∧ s'.data.scriptEngineProtocol = none

/-- In every run whose steps meet `ok`. -/
def LazyInit (ok : Sys → Lbl → Prop) : Prop :=
  ∀ (dirs : List Str8) (s : Sys) (h : List Event), Reach step ok (initial dirs) s h →
    LazyInitAt ok s

theorem protocol_iff_initialised {dirs : List Str8} {s : Sys} {h : List Event}
    (hr : Reach step InitWatched (initial dirs) s h) : LazyInitAt InitWatched s := by
  constructor
  · exact hr.invariant (fun s _ => FlagOk s) (flagOk_initial dirs)
      (fun _ _ _ _ _ hinv hok hs => flagOk_step hinv hok hs)
  · intro l hok hfault hinit henv
    obtain ⟨this, source, length, sharable, env, rfl⟩ := hok.2 hinit henv
    obtain ⟨hrun, hp⟩ := hinit
    have henv' : env.heapOk = false := henv
    refine ⟨{ s with mHeap := none }, ?_, rfl, hp⟩
    simp [step, hfault, upyExecute, hrun, hp, upyInit, henv']

/-- A script that is not sharable runs and destroys the interpreter; `UpyExecute` then
cannot initialise it again. -/
def watchedRun : List Lbl :=
  [.execute (some 1) (some 10) 5 false ⟨true, []⟩, .complete 0,
   .execute (some 1) (some 20) 5 false ⟨false, []⟩]

theorem failed_execute_is_watched : ∃ s h,
    run step (initial []) watchedRun = some (s, h) ∧ s.initialised = false ∧
    LazyInitAt InitWatched s := by
  have hexec : ∀ s source env, InitWatched s (.execute (some 1) source 5 false env) := by
    intro s source env
    exact ⟨fun _ => by simp, fun _ _ => ⟨_, _, _, _, _, rfl⟩⟩
  have hg : Guarded step InitWatched (initial []) watchedRun := by
    refine ⟨hexec _ _ _, fun _ _ _ => ⟨⟨trivial, fun hinit => hinit.elim⟩, fun _ _ _ => ?_⟩⟩
    exact ⟨hexec _ _ _, fun _ _ _ => trivial⟩
  have hrun : ∃ s h, run step (initial []) watchedRun = some (s, h) ∧ s.initialised = false :=
    ⟨_, _, rfl, rfl⟩
  obtain ⟨s, h, hs, hinit⟩ := hrun
  exact ⟨s, h, hs, hinit, protocol_iff_initialised (Reach.of_run hg hs)⟩

/-- A script that is not sharable runs and destroys the interpreter; then the
arguments are set while the heap cannot be allocated. -/
def failedInitRun : List Lbl :=
  [.execute (some 1) (some 10) 5 false ⟨true, []⟩, .complete 0,
   .setArgs (some 1) (some []) ⟨false, []⟩]

/-- `UpySetArgs` returns success and the protocol is set, without an interpreter. -/
theorem failed_init_sets_protocol : ¬ LazyInit Given := by
  intro hclaim
  have hg : Guarded step Given (initial []) failedInitRun := by
    refine ⟨fun _ => by decide, fun _ _ _ => ⟨trivial, fun _ _ _ => ⟨trivial, fun _ _ _ => trivial⟩⟩⟩
  have hrun : ∃ s evs, run step (initial []) failedInitRun = some (s, evs) ∧
      s.data.scriptEngineProtocol = some 1 ∧ s.initialised = false := ⟨_, _, rfl, rfl, rfl⟩
  obtain ⟨s, evs, hs, hproto, hinit⟩ := hrun
  obtain ⟨hflag, -⟩ := hclaim [] s evs (Reach.of_run hg hs)
  simp [FlagOk, hproto, hinit] at hflag

end EfiLvgl.Executor
