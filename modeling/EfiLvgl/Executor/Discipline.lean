import EfiLvgl.Executor.Model

/-!
# EfiLvgl.Executor.Discipline — one script at a time

What the executor is for, as an abstract machine: a slot that is idle, holds an
accepted script that has not been started (`pending`), or a started script that
has not completed (`active`). `Slot.track` reads the events of a run; a history
it accepts is one in which every accepted script is started once, with the
pointer that was accepted, and completes before the next one is accepted.

The code keeps this discipline in every run in which `UpyExecute` and
`UpyExecuteAsync` are not called between the acceptance of an asynchronous
script and the first firing of its timer (`Orderly`): `IsRunning` is only set
when `UpyDoScript` starts, so in that window a second script is accepted over
the first one. `Inv` relates the executor record to the slot; `inv_step` is the
one case analysis behind the results about runs.
-/

namespace EfiLvgl.Executor

open EfiLvgl.Run

/-! ## The abstract slot -/

/-- The abstract state of the executor. -/
inductive Slot where
  | idle
  | pending (source : Option Ptr)
  | active (source : Option Ptr)
deriving DecidableEq, Repr

/-- Read one event; `none` when the event breaks the discipline. -/
def Slot.track : Slot → Event → Option Slot
  | .idle, .accepted p => some (.pending p)
  | .pending p, .started q => if p = q then some (.active p) else none
  | .active p, .completed q => if p = q then some .idle else none
  -- a second script, one that was not accepted, one that was not started
  | _, .accepted _ => none
  | _, .started _ => none
  | _, .completed _ => none
  | a, _ => some a

/-- The history is one of a single-slot executor that is now in slot `a`. -/
def Disciplined (h : List Event) (a : Slot) : Prop :=
  trackAll Slot.track .idle h = some a

/-- The script has been neither started, suspended, resumed nor completed. -/
def Event.quiet : Event → Bool
  | .started _ | .suspended _ | .longJump _ | .completed _ => false
  | _ => true

/-- The context was saved by a suspension after which nothing has happened to the
script. -/
def StillSuspended (h : List Event) (c : EngineContext) : Prop :=
  ∃ h₁ h₂, h = h₁ ++ .suspended c :: h₂ ∧ ∀ e ∈ h₂, e.quiet = true

theorem StillSuspended.append_quiet {h evs : List Event} {c : EngineContext}
    (hc : StillSuspended h c) (hq : ∀ e ∈ evs, e.quiet = true) :
    StillSuspended (h ++ evs) c := by
  obtain ⟨h₁, h₂, rfl, hq₂⟩ := hc
  refine ⟨h₁, h₂ ++ evs, by simp, ?_⟩
  intro e he
  rcases List.mem_append.mp he with he | he
  · exact hq₂ e he
  · exact hq e he

/-! ## The condition on the steps -/

/-- The label is a call of `UpyExecute` or `UpyExecuteAsync`. -/
def Lbl.isCall : Lbl → Bool
  | .execute .. => true
  | .executeAsync .. => true
  | _ => false

/-- What every caller promises and the firmware is taken to grant: the two calls
that do not check `This` get the protocol, and allocation succeeds. -/
def Served (_ : Sys) : Lbl → Prop
  | .execute this _ _ _ env => this ≠ none ∧ env.heapOk = true
  | .executeAsync this _ _ _ env => this ≠ none ∧ env.heapOk = true
  | .setArgs _ _ env => env.heapOk = true
  | .setPath _ _ env => env.heapOk = true
  | _ => True

/-- No call is made while an accepted script waits for its timer: then
`IsRunning` is not yet set although a timer is armed. And while a script runs, no
call has the arguments that `UpyExecuteAsync` turns away before it looks at
`IsRunning`. -/
def Orderly (s : Sys) (l : Lbl) : Prop :=
  Served s l ∧ (l.isCall = true → s.data.isRunning = false → s.armed = []) ∧
    ∀ this source length sharable env, l = .executeAsync this source length sharable env →
      s.data.isRunning = true → source ≠ none ∧ length ≠ 0

/-- A step that is no call, with what every caller promises, is in order. -/
theorem Orderly.of_not_call {s : Sys} {l : Lbl} (hserved : Served s l) (hl : l.isCall = false) :
    Orderly s l := by
  refine ⟨hserved, ?_, ?_⟩
  · intro hcall
    rw [hl] at hcall
    cases hcall
  · rintro this source length sharable env rfl
    cases hl

/-! ## The invariant -/

/-- The executor record and its surroundings in each slot. A started script is
either on top of the call stack or suspended with its timer armed. -/
inductive Inv : Sys → Slot → Prop where
  | idle {s : Sys} (hfault : s.fault = none) (hrun : s.data.isRunning = false)
      (hframes : s.frames = []) (harmed : s.armed = []) (hsusp : s.suspended = []) :
      Inv s .idle
  | pending {s : Sys} {event stack : Nat} (hfault : s.fault = none)
      (hrun : s.data.isRunning = false) (hframes : s.frames = []) (harmed : s.armed = [event])
      (hsusp : s.suspended = []) (hevent : s.data.execEvent = some event)
      (hproto : s.data.scriptEngineProtocol ≠ none)
      (hstack : s.data.scriptEngineStack = some stack) (hlive : stack ∈ s.allocated) :
      Inv s (.pending s.data.script)
  | running {s : Sys} {source : Option Ptr} {id stack : Nat} {sync : Bool}
      (hfault : s.fault = none) (hrun : s.data.isRunning = true)
      (hframes : s.frames = [.script source stack, .executor id sync])
      (hctx : s.data.executorContext = some id) (harmed : s.armed = [])
      (hsusp : s.suspended = []) (hstack : s.data.scriptEngineStack = some stack)
      (hlive : stack ∈ s.allocated) : Inv s (.active source)
  | suspended {s : Sys} {event : Nat} {ctx : EngineContext}
      (hfault : s.fault = none) (hrun : s.data.isRunning = true) (hframes : s.frames = [])
      (harmed : s.armed = [event]) (hevent : s.data.execEvent = some event)
      (hctx : s.data.scriptEngineContext = some ctx) (hsusp : s.suspended = [ctx])
      (hstack : s.data.scriptEngineStack = some ctx.stack) (hlive : ctx.stack ∈ s.allocated) :
      Inv s (.active ctx.source)

theorem Inv.fault_none {s : Sys} {a : Slot} (h : Inv s a) : s.fault = none := by
  cases h <;> assumption

/-- While a script is outstanding, either it runs or its timer is armed. -/
theorem Inv.outstanding {s : Sys} {a : Slot} (h : Inv s a) (ha : a ≠ .idle) :
    s.data.isRunning = true ∨ s.armed ≠ [] := by
  cases h with
  | idle => exact absurd rfl ha
  | pending _ _ _ harmed => right; simp [harmed]
  | running _ hrun => left; exact hrun
  | suspended _ hrun => left; exact hrun

theorem inv_initial (dirs : List Str8) : Inv (initial dirs) .idle :=
  .idle rfl rfl rfl rfl rfl

/-! ## What each function does to the invariant -/

/-- The effect of a step: its events are read without a breach and the invariant
holds afterwards; a jump into the script engine only ever goes to a context of
`suspended` whose stack is allocated; and a context in `suspended` afterwards has
just been saved or was there before and nothing happened to its script. -/
structure Keeps (s : Sys) (a : Slot) (r : Sys × List Event) : Prop where
  slot : ∃ a', trackAll Slot.track a r.2 = some a' ∧ Inv r.1 a'
  jump : ∀ ctx, Event.longJump ctx ∈ r.2 → ∃ c, ctx = some c ∧ c ∈ s.suspended ∧ c.stack ∈ s.allocated
  kept : ∀ c ∈ r.1.suspended, StillSuspended r.2 c ∨
    (c ∈ s.suspended ∧ ∀ e ∈ r.2, e.quiet = true)

/-- A step that only reports a status, to the outside the same state. -/
theorem keeps_reply {s t : Sys} {a : Slot} (h : Inv t a) (hs : t.suspended = s.suspended)
    (st : EfiStatus) : Keeps s a (t, [.returned st]) where
  slot := ⟨a, by cases a <;> rfl, h⟩
  jump := by
    intro ctx hmem
    simp at hmem
  kept := by
    intro c hc
    exact .inr ⟨hs ▸ hc, by simp [Event.quiet]⟩

/-- A step after which no script is suspended. -/
theorem keeps_of_no_suspended {s t : Sys} {a a' : Slot} {evs : List Event} (h : Inv t a')
    (ht : trackAll Slot.track a evs = some a') (hs : t.suspended = [])
    (hj : ∀ ctx, Event.longJump ctx ∈ evs →
      ∃ c, ctx = some c ∧ c ∈ s.suspended ∧ c.stack ∈ s.allocated) :
    Keeps s a (t, evs) where
  slot := ⟨a', ht, h⟩
  jump := hj
  kept := by
    intro c hc
    simp [hs] at hc

/-- `initOnFirstUse` touches nothing the invariant speaks about. -/
theorem inv_initOnFirstUse {s : Sys} {a : Slot} (h : Inv s a) (this : Option Ptr)
    {env : InitEnv} (henv : env.heapOk = true) :
    Inv (initOnFirstUse s this env) a := by
  unfold initOnFirstUse
  by_cases hp : s.data.scriptEngineProtocol = none
  · simp only [hp, if_true, upyInit, henv]
    cases h with
    | idle hfault hrun hframes harmed hsusp => exact .idle hfault hrun hframes harmed hsusp
    -- a script was accepted with the protocol set
    | pending hfault hrun hframes harmed hsusp hevent hproto hstack hlive =>
      exact absurd hp hproto
    | running hfault hrun hframes hctx harmed hsusp hstack hlive =>
      exact .running hfault hrun hframes hctx harmed hsusp hstack hlive
    | suspended hfault hrun hframes harmed hevent hctx hsusp hstack hlive =>
      exact .suspended hfault hrun hframes harmed hevent hctx hsusp hstack hlive
  · simp only [hp, if_false]
    exact h

theorem initOnFirstUse_suspended (s : Sys) (this : Option Ptr) (env : InitEnv) :
    (initOnFirstUse s this env).suspended = s.suspended := by
  unfold initOnFirstUse upyInit
  split
  · split <;> rfl
  · rfl

theorem initOnFirstUse_proto {s : Sys} {this : Option Ptr} (hthis : this ≠ none)
    (env : InitEnv) : (initOnFirstUse s this env).data.scriptEngineProtocol ≠ none := by
  unfold initOnFirstUse
  by_cases hp : s.data.scriptEngineProtocol = none
  · simpa [hp] using hthis
  · simp [hp]

/-- The invariant does not read the interpreter's lists. -/
theorem inv_of_data {s t : Sys} {a : Slot} (h : Inv s a) (hd : t.data = s.data)
    (hf : t.frames = s.frames) (ha : t.armed = s.armed) (hk : t.allocated = s.allocated)
    (hs : t.suspended = s.suspended) (hft : t.fault = s.fault) : Inv t a := by
  cases h with
  | idle hfault hrun hframes harmed hsusp =>
    exact .idle (hft ▸ hfault) (hd ▸ hrun) (hf ▸ hframes) (ha ▸ harmed) (hs ▸ hsusp)
  | pending hfault hrun hframes harmed hsusp hevent hproto hstack hlive =>
    rw [← hd]
    exact .pending (hft ▸ hfault) (hd ▸ hrun) (hf ▸ hframes) (ha ▸ harmed) (hs ▸ hsusp)
      (hd ▸ hevent) (hd ▸ hproto) (hd ▸ hstack) (hk ▸ hlive)
  | running hfault hrun hframes hctx harmed hsusp hstack hlive =>
    exact .running (hft ▸ hfault) (hd ▸ hrun) (hf ▸ hframes) (hd ▸ hctx) (ha ▸ harmed)
      (hs ▸ hsusp) (hd ▸ hstack) (hk ▸ hlive)
  | suspended hfault hrun hframes harmed hevent hctx hsusp hstack hlive =>
    exact .suspended (hft ▸ hfault) (hd ▸ hrun) (hf ▸ hframes) (ha ▸ harmed) (hd ▸ hevent)
      (hd ▸ hctx) (hs ▸ hsusp) (hd ▸ hstack) (hk ▸ hlive)

/-- `ScriptExecutor` with a script that is to be started: the slot's script runs. -/
theorem scriptExecutor_start {s : Sys} {stack : Nat} (sync : Bool)
    (hfault : s.fault = none) (hrun : s.data.isRunning = false) (hframes : s.frames = [])
    (harmed : s.armed = []) (hsusp : s.suspended = [])
    (hproto : s.data.scriptEngineProtocol ≠ none)
    (hstack : s.data.scriptEngineStack = some stack) (hlive : stack ∈ s.allocated) :
    (scriptExecutor s sync).2 = [.started s.data.script] ∧
      (scriptExecutor s sync).1.suspended = [] ∧
      Inv (scriptExecutor s sync).1 (.active s.data.script) := by
  have hstart : scriptExecutor s sync = upyDoScript { s with
      next := s.next + 1
      frames := .executor s.next sync :: s.frames
      data := { s.data with executorContext := some s.next } } stack := by
    simp [scriptExecutor, switchStack, hrun, hproto, hstack, hlive]
  have hframes' : Frame.script s.data.script stack :: .executor s.next sync :: s.frames =
      [.script s.data.script stack, .executor s.next sync] := by rw [hframes]
  rw [hstart]
  exact ⟨rfl, hsusp, .running hfault rfl hframes' rfl harmed hsusp hstack hlive⟩

/-- `ScriptExecutor` with a suspended script: the script goes on. -/
theorem scriptExecutor_resume {s : Sys} {ctx : EngineContext} (sync : Bool)
    (hfault : s.fault = none) (hrun : s.data.isRunning = true) (hframes : s.frames = [])
    (harmed : s.armed = []) (hctx : s.data.scriptEngineContext = some ctx)
    (hsusp : s.suspended = [ctx]) (hstack : s.data.scriptEngineStack = some ctx.stack)
    (hlive : ctx.stack ∈ s.allocated) :
    (scriptExecutor s sync).2 = [.longJump (some ctx)] ∧
      (scriptExecutor s sync).1.suspended = [] ∧
      Inv (scriptExecutor s sync).1 (.active ctx.source) := by
  have hresume : scriptExecutor s sync = ({ s with
      next := s.next + 1
      suspended := []
      frames := .script ctx.source ctx.stack :: .executor s.next sync :: s.frames
      data := { s.data with executorContext := some s.next } }, [.longJump (some ctx)]) := by
    simp [scriptExecutor, longJumpEngine, hrun, hctx, hsusp, hlive]
  have hframes' : Frame.script ctx.source ctx.stack :: .executor s.next sync :: s.frames =
      [.script ctx.source ctx.stack, .executor s.next sync] := by rw [hframes]
  rw [hresume]
  exact ⟨rfl, rfl, .running hfault hrun hframes' rfl harmed rfl hstack hlive⟩

/-- Firing the one armed timer starts the pending script or resumes the
suspended one. -/
theorem keeps_fire {s s' : Sys} {a : Slot} {event : Nat} {evs : List Event} (h : Inv s a)
    (hs : fire s event = some (s', evs)) : Keeps s a (s', evs) := by
  unfold fire at hs
  by_cases hmem : event ∈ s.armed
  · rw [if_pos hmem, Option.some.injEq] at hs
    cases h with
    | idle _ _ _ harmed => simp [harmed] at hmem
    | running _ _ _ _ harmed => simp [harmed] at hmem
    | pending hfault hrun hframes harmed hsusp hevent hproto hstack hlive =>
      rw [harmed, List.mem_singleton] at hmem
      subst hmem
      obtain ⟨hevs, hsusp₁, hinv⟩ := scriptExecutor_start
        (s := { s with armed := s.armed.erase event }) false hfault hrun hframes (by simp [harmed]) hsusp hproto hstack hlive
      rw [hs] at hevs hsusp₁ hinv
      have hevs' : evs = [.started s.data.script] := hevs
      -- no jump: the script is started on its own stack
      refine keeps_of_no_suspended hinv ?_ ?_ ?_
      · simp [hevs', Slot.track]
      · exact hsusp₁
      · intro ctx hc
        simp [hevs'] at hc
    | suspended hfault hrun hframes harmed hevent hctx hsusp hstack hlive =>
      rw [harmed, List.mem_singleton] at hmem
      subst hmem
      obtain ⟨hevs, hsusp₁, hinv⟩ := scriptExecutor_resume
        (s := { s with armed := s.armed.erase event }) false hfault hrun hframes (by simp [harmed]) hctx hsusp hstack hlive
      rw [hs] at hevs hsusp₁ hinv
      have hevs' : evs = [.longJump (some _)] := hevs
      refine keeps_of_no_suspended hinv ?_ ?_ ?_
      · simp [hevs', Slot.track]
      · exact hsusp₁
      · intro c hc
        simp only [hevs', List.mem_singleton, Event.longJump.injEq] at hc
        exact ⟨_, hc, by simp [hsusp], hlive⟩
  · simp [hmem] at hs

/-- A return of `UpyExecute` is not an event of the slot. -/
theorem trackAll_returnEvents (a : Slot) (s : Sys) (sync : Bool) :
    trackAll Slot.track a (returnEvents s sync) = some a := by
  cases sync <;> cases a <;> rfl

theorem keeps_suspend {s s' : Sys} {a : Slot} {ms : Nat} {evs : List Event} (h : Inv s a)
    (hs : upySuspend s ms = some (s', evs)) : Keeps s a (s', evs) := by
  unfold upySuspend at hs
  cases h with
  | idle _ _ hframes => simp [hframes] at hs
  | pending _ _ hframes => simp [hframes] at hs
  | suspended _ _ hframes => simp [hframes] at hs
  | @running source id stack sync hfault hrun hframes hctx harmed hsusp hstack hlive =>
    simp only [hframes] at hs
    cases hev : s.data.execEvent with
    | none =>
      -- not in asynchronous mode: the script gets an exception and goes on
      simp only [hev, if_true, Option.some.injEq, Prod.mk.injEq] at hs
      obtain ⟨rfl, rfl⟩ := hs
      exact keeps_of_no_suspended (.running hfault hrun hframes hctx harmed hsusp hstack hlive) rfl
        hsusp (by simp)
    | some event =>
      simp only [hev, reduceCtorEq, if_false, Option.some.injEq, Prod.mk.injEq] at hs
      have hval : (ms * 256 + 1) % 2 ^ 64 % 16 = 1 := by omega
      -- the jump finds the activation below the script
      simp only [longJumpExecutor, findActivation, hctx, scriptExecutorBack, hval, if_true, harmed,
        List.not_mem_nil, if_false] at hs
      obtain ⟨rfl, rfl⟩ := hs
      refine ⟨⟨.active source, ?_, ?_⟩, ?_, ?_⟩
      · simp [Slot.track, trackAll_returnEvents]
      · have hsusp' : (⟨s.next, source, stack⟩ : EngineContext) :: s.suspended =
            [⟨s.next, source, stack⟩] := by rw [hsusp]
        exact @Inv.suspended _ event ⟨s.next, source, stack⟩ hfault hrun rfl rfl rfl rfl hsusp'
          hstack hlive
      · intro c hc
        cases sync <;> simp [returnEvents] at hc
      · intro c hc
        simp only [hsusp, List.mem_singleton] at hc
        subst hc
        exact .inl ⟨[], _, rfl, by cases sync <;> simp [returnEvents, Event.quiet]⟩

theorem cleanUp_suspended (s : Sys) : (cleanUp s).suspended = s.suspended := by
  unfold cleanUp
  cases s.data.scriptEngineStack <;> cases hd : s.data.deinitAfterwards <;>
    simp [hd, upyDeinit]

/-- After the clean-up the slot is free again. -/
theorem inv_cleanUp {s : Sys} (hfault : s.fault = none) (hframes : s.frames = [])
    (harmed : s.armed = []) (hsusp : s.suspended = []) : Inv (cleanUp s) .idle := by
  unfold cleanUp
  cases hst : s.data.scriptEngineStack <;> cases hd : s.data.deinitAfterwards <;>
    simp only [hd, upyDeinit] <;> exact .idle hfault rfl hframes harmed hsusp

theorem keeps_complete {s s' : Sys} {a : Slot} {ret : Int} {evs : List Event} (h : Inv s a)
    (hs : upyDoScriptEnd s ret = some (s', evs)) : Keeps s a (s', evs) := by
  unfold upyDoScriptEnd at hs
  cases h with
  | idle _ _ hframes => simp [hframes] at hs
  | pending _ _ hframes => simp [hframes] at hs
  | suspended _ _ hframes => simp [hframes] at hs
  | @running source id stack sync hfault hrun hframes hctx harmed hsusp hstack hlive =>
    simp only [hframes, hstack, ne_eq, reduceCtorEq, not_false_eq_true, if_true,
      Option.some.injEq, Prod.mk.injEq] at hs
    simp only [longJumpExecutor, findActivation, hctx, scriptExecutorBack, if_true,
      Nat.reduceMod, Nat.reduceEqDiff, if_false] at hs
    obtain ⟨rfl, rfl⟩ := hs
    refine keeps_of_no_suspended (inv_cleanUp ?_ ?_ ?_ ?_) ?_ ?_ ?_
    · exact hfault
    · rfl
    · exact harmed
    · simp [hsusp]
    · simp [Slot.track, trackAll_returnEvents]
    · simp [cleanUp_suspended, hsusp]
    · intro c hc
      cases sync <;> simp [returnEvents] at hc

/-! ## Calls of the entry points -/

/-- An orderly call that gets past the `IsRunning` check finds the slot idle. -/
theorem Inv.idle_of_call {s : Sys} {a : Slot} {l : Lbl} (h : Inv s a) (hok : Orderly s l)
    (hcall : l.isCall = true) (hrun : ¬ s.data.isRunning = true) : a = .idle := by
  have harmed := hok.2.1 hcall (by simpa using hrun)
  by_contra hne
  rcases h.outstanding hne with h' | h'
  · exact hrun h'
  · exact h' harmed

/-- An accepted asynchronous script is pending, with its timer armed. -/
theorem inv_accept_async {s : Sys} (h : Inv s .idle) {this source : Option Ptr} {length : Nat}
    (sharable : Bool) {env : InitEnv} (hthis : this ≠ none) (henv : env.heapOk = true)
    (hargs : ¬ (source = none ∨ length = 0)) :
    Keeps s .idle (upyExecuteAsync s this source length sharable env) := by
  have hinit := inv_initOnFirstUse h this henv
  have hproto := initOnFirstUse_proto (s := s) hthis env
  cases h with
  | idle hfault hrun hframes harmed hsusp =>
    cases hinit with
    | idle hfault hrun' hframes harmed hsusp =>
      have hnr : ¬ s.data.isRunning = true := by simp [hrun]
      simp only [upyExecuteAsync, if_neg hargs, if_neg hnr]
      refine keeps_of_no_suspended (.pending hfault hrun' hframes ?_ hsusp rfl hproto rfl ?_)
        ?_ hsusp ?_
      · simp [allocateStack, harmed]
      · simp [allocateStack]
      · simp [allocateStack, Slot.track]
      · intro c hc
        simp at hc

theorem keeps_executeAsync {s : Sys} {a : Slot} (h : Inv s a) {this source : Option Ptr}
    {length : Nat} {sharable : Bool} {env : InitEnv}
    (hok : Orderly s (.executeAsync this source length sharable env)) :
    Keeps s a (upyExecuteAsync s this source length sharable env) := by
  by_cases hargs : source = none ∨ length = 0
  · simp only [upyExecuteAsync, if_pos hargs]
    exact keeps_reply h rfl _
  · by_cases hrun : s.data.isRunning = true
    · simp only [upyExecuteAsync, if_neg hargs, if_pos hrun]
      exact keeps_reply h rfl _
    · obtain rfl := h.idle_of_call hok rfl hrun
      exact inv_accept_async h sharable hok.1.1 hok.1.2 hargs

/-- An accepted synchronous script is started at once. -/
theorem keeps_executeStart {s t : Sys} (h : Inv t .idle)
    (hproto : t.data.scriptEngineProtocol ≠ none) (source : Option Ptr) (length : Nat)
    (sharable : Bool) : Keeps s .idle (upyExecuteStart t source length sharable) := by
  cases h with
  | idle hfault hrun hframes harmed hsusp =>
    obtain ⟨hevs, hsusp₁, hinv⟩ := scriptExecutor_start
      (s := allocateStack { t with data := { t.data with
        deinitAfterwards := !sharable
        execEvent := none
        script := source
        scriptLength := length } }) true hfault hrun hframes harmed hsusp hproto rfl
      (by simp [allocateStack])
    refine keeps_of_no_suspended hinv ?_ hsusp₁ ?_
    · rw [hevs]
      simp [allocateStack, Slot.track]
    · intro c hc
      rw [hevs] at hc
      simp at hc

theorem keeps_execute {s : Sys} {a : Slot} (h : Inv s a) {this source : Option Ptr}
    {length : Nat} {sharable : Bool} {env : InitEnv}
    (hok : Orderly s (.execute this source length sharable env)) :
    Keeps s a (upyExecute s this source length sharable env) := by
  obtain ⟨⟨hthis, henv⟩, -⟩ := id hok
  by_cases hrun : s.data.isRunning = true
  · simp only [upyExecute, if_pos hrun]
    exact keeps_reply h rfl _
  · obtain rfl := h.idle_of_call hok rfl hrun
    -- when the heap is there, `UpyExecute` initialises as the other entry points do
    by_cases hp : s.data.scriptEngineProtocol = none
    · have hinit := inv_initOnFirstUse h this henv
      simp only [initOnFirstUse, if_pos hp, upyInit, henv, if_true] at hinit
      simp only [upyExecute, if_neg hrun, if_pos hp, upyInit, henv, if_true]
      exact keeps_executeStart hinit hthis source length sharable
    · simp only [upyExecute, if_neg hrun, if_neg hp]
      exact keeps_executeStart h hp source length sharable

theorem keeps_setArgs {s : Sys} {a : Slot} (h : Inv s a) {this : Option Ptr}
    {argv : Option (List (Option Str16))} {env : InitEnv} (henv : env.heapOk = true) :
    Keeps s a (upySetArgs s this argv env) := by
  cases argv with
  | none => exact keeps_reply h rfl _
  | some args =>
    by_cases hthis : this = none
    · simp only [upySetArgs, if_pos hthis]
      exact keeps_reply h rfl _
    · simp only [upySetArgs, if_neg hthis]
      apply keeps_reply
      · exact inv_of_data (inv_initOnFirstUse h this henv) rfl rfl rfl rfl rfl rfl
      · exact initOnFirstUse_suspended s this env

theorem keeps_setPath {s : Sys} {a : Slot} (h : Inv s a) {this : Option Ptr}
    {path : Option Str16} {env : InitEnv} (henv : env.heapOk = true) :
    Keeps s a (upySetPath s this path env) := by
  by_cases hthis : this = none
  · simp only [upySetPath, if_pos hthis]
    exact keeps_reply h rfl _
  · simp only [upySetPath, if_neg hthis]
    cases path <;> apply keeps_reply
    · exact inv_of_data (inv_initOnFirstUse h this henv) rfl rfl rfl rfl rfl rfl
    · exact initOnFirstUse_suspended s this env
    · exact inv_of_data (inv_initOnFirstUse h this henv) rfl rfl rfl rfl rfl rfl
    · exact initOnFirstUse_suspended s this env

/-! ## Steps and runs -/

/-- The one case analysis over the labels. -/
theorem inv_step {s s' : Sys} {a : Slot} {l : Lbl} {evs : List Event} (h : Inv s a)
    (hok : Orderly s l) (hs : step s l = some (s', evs)) : Keeps s a (s', evs) := by
  unfold step at hs
  rw [if_pos h.fault_none] at hs
  cases l with
  | execute this source length sharable env =>
    rw [Option.some.inj hs.symm]
    exact keeps_execute h hok
  | executeAsync this source length sharable env =>
    rw [Option.some.inj hs.symm]
    exact keeps_executeAsync h hok
  | setArgs this argv env =>
    rw [Option.some.inj hs.symm]
    exact keeps_setArgs h hok.1
  | setPath this path env =>
    rw [Option.some.inj hs.symm]
    exact keeps_setPath h hok.1
  | fire event => exact keeps_fire h hs
  | suspend ms => exact keeps_suspend h hs
  | complete ret => exact keeps_complete h hs

/-- Along an orderly run the history is disciplined, the record fits its slot,
and the contexts kept as suspended are those the history says are. -/
theorem inv_reach {dirs : List Str8} {s : Sys} {h : List Event}
    (hr : Reach step Orderly (initial dirs) s h) :
    ∃ a, Disciplined h a ∧ Inv s a ∧ ∀ c ∈ s.suspended, StillSuspended h c := by
  refine hr.invariant
    (fun s h => ∃ a, Disciplined h a ∧ Inv s a ∧ ∀ c ∈ s.suspended, StillSuspended h c) ?_ ?_
  · exact ⟨.idle, rfl, inv_initial dirs, by intro c hc; cases hc⟩
  · rintro s s' h evs l ⟨a, hd, hinv, hsusp⟩ hok hs
    have hk := inv_step hinv hok hs
    obtain ⟨a', htrack, hinv'⟩ := hk.slot
    refine ⟨a', ?_, hinv', ?_⟩
    · have hd' : trackAll Slot.track .idle h = some a := hd
      simp only [Disciplined, trackAll_append, hd', Option.bind_some]
      exact htrack
    · intro c hc
      -- saved in this step, or saved before and left alone by it
      rcases hk.kept c hc with ⟨h₁, h₂, hevs, hq⟩ | ⟨hold, hq⟩
      · have hevs' : evs = h₁ ++ .suspended c :: h₂ := hevs
        exact ⟨h ++ h₁, h₂, by simp [hevs'], hq⟩
      · exact (hsusp c hold).append_quiet hq

/-- While a script is outstanding, an orderly call is turned away and changes
nothing. -/
theorem call_rejected {s : Sys} {a : Slot} {l : Lbl} (h : Inv s a) (ha : a ≠ .idle)
    (hcall : l.isCall = true) (hok : Orderly s l) :
    step s l = some (s, [.returned .alreadyStarted]) := by
  have hrun : s.data.isRunning = true := by
    by_contra hnr
    exact ha (h.idle_of_call hok hcall hnr)
  cases l with
  | execute => simp [step, h.fault_none, upyExecute, hrun]
  | executeAsync this source length sharable env =>
    have hargs : ¬ (source = none ∨ length = 0) := by
      have hvalid := hok.2.2 _ _ _ _ _ rfl hrun
      tauto
    simp [step, h.fault_none, upyExecuteAsync, hrun, hargs]
  | setArgs | setPath | fire | suspend | complete => simp [Lbl.isCall] at hcall

/-- An accepted script is not lost: its timer is the one armed timer, and the
firing of that timer starts it. -/
theorem pending_started_by_timer {s : Sys} {p : Option Ptr} (h : Inv s (.pending p)) :
    ∃ event s', s.armed = [event] ∧ step s (.fire event) = some (s', [.started p]) := by
  have hft := h.fault_none
  cases h with
  | @pending event stack hfault hrun hframes harmed hsusp hevent hproto hstack hlive =>
    obtain ⟨hevs, -⟩ := scriptExecutor_start (s := { s with armed := s.armed.erase event })
      false hfault hrun hframes (by simp [harmed]) hsusp hproto hstack hlive
    refine ⟨event, (scriptExecutor { s with armed := s.armed.erase event } false).1, harmed, ?_⟩
    have hfire : step s (.fire event) =
        some (scriptExecutor { s with armed := s.armed.erase event } false) := by
      simp [step, hft, fire, harmed]
    rw [hfire, Option.some.injEq]
    exact Prod.ext rfl hevs

/-! ## Accepted scripts run once -/

/-- Accepted scripts are started exactly once, with the accepted pointer, in the
order of acceptance and each after the completion of the one before; a script that
waits is started by its timer; and a call made while a script is outstanding is
rejected and changes nothing. -/
def RunsOnceAt (ok : Sys → Lbl → Prop) (s : Sys) (h : List Event) : Prop :=
  ∃ a, Disciplined h a ∧
    (∀ p, a = .pending p →
      ∃ event s', s.armed = [event] ∧ step s (.fire event) = some (s', [.started p])) ∧
    (a ≠ .idle → ∀ l : Lbl, l.isCall = true → ok s l →
      step s l = some (s, [.returned .alreadyStarted]))

/-- In every run whose steps meet `ok`. -/
def RunsOnce (ok : Sys → Lbl → Prop) : Prop :=
  ∀ (dirs : List Str8) (s : Sys) (h : List Event), Reach step ok (initial dirs) s h →
    RunsOnceAt ok s h

theorem accepted_script_runs_once {dirs : List Str8} {s : Sys} {h : List Event}
    (hr : Reach step Orderly (initial dirs) s h) : RunsOnceAt Orderly s h := by
  obtain ⟨a, hd, hinv, -⟩ := inv_reach hr
  refine ⟨a, hd, ?_, ?_⟩
  · rintro p rfl
    exact pending_started_by_timer hinv
  · intro ha l hcall hok
    exact call_rejected hinv ha hcall hok

theorem orderly_initial_async :
    Orderly (initial []) (.executeAsync (some 1) (some 10) 5 true ⟨true, []⟩) := by
  refine ⟨⟨by decide, rfl⟩, fun _ _ => rfl, ?_⟩
  intro this source length sharable env _ hrun
  cases hrun

/-- An asynchronous script that has been started by its timer. -/
def asyncRun : List Lbl := [.executeAsync (some 1) (some 10) 5 true ⟨true, []⟩, .fire 2]

theorem async_script_runs_once : ∃ s,
    run step (initial []) asyncRun =
      some (s, [.accepted (some 10), .returned .success, .started (some 10)]) ∧
    RunsOnceAt Orderly s [.accepted (some 10), .returned .success, .started (some 10)] := by
  have hg : Guarded step Orderly (initial []) asyncRun := by
    refine ⟨orderly_initial_async, fun _ _ _ => ⟨?_, fun _ _ _ => trivial⟩⟩
    exact Orderly.of_not_call trivial rfl
  have hrun : ∃ s, run step (initial []) asyncRun =
      some (s, [.accepted (some 10), .returned .success, .started (some 10)]) := ⟨_, rfl⟩
  obtain ⟨s, hs⟩ := hrun
  exact ⟨s, hs, accepted_script_runs_once (Reach.of_run hg hs)⟩

/-- Two asynchronous scripts accepted before the first timer fires; both timers
then fire. -/
def overwritingRun : List Lbl :=
  [.executeAsync (some 1) (some 10) 5 true ⟨true, []⟩,
   .executeAsync (some 1) (some 20) 5 true ⟨true, []⟩,
   .fire 2, .complete 0, .fire 4]

/-- Script 10 is accepted and never started, script 20 is started twice. -/
theorem second_script_overwrites_first : ¬ RunsOnce Served := by
  intro hclaim
  have hrun : ∃ s, run step (initial []) overwritingRun = some (s,
      [.accepted (some 10), .returned .success, .accepted (some 20), .returned .success,
       .started (some 20), .completed (some 20), .started (some 20)]) := ⟨_, rfl⟩
  obtain ⟨s, hs⟩ := hrun
  have hg : Guarded step Served (initial []) overwritingRun := by
    refine ⟨⟨by decide, rfl⟩, fun _ _ _ => ⟨⟨by decide, rfl⟩, fun _ _ _ => ⟨trivial, fun _ _ _ =>
      ⟨trivial, fun _ _ _ => ⟨trivial, fun _ _ _ => trivial⟩⟩⟩⟩⟩
  obtain ⟨a, hd, -⟩ := hclaim [] s _ (Reach.of_run hg hs)
  simp [Disciplined, Slot.track] at hd

/-! ## Jumps into the script engine -/

/-- A jump of `ScriptExecutor` among the events of a step goes to a context that was
saved by a suspension of a script to which nothing has happened since, and the stack
it runs on is still allocated. -/
def JumpsLiveAt (s : Sys) (h evs : List Event) : Prop :=
  ∀ ctx, Event.longJump ctx ∈ evs →
    ∃ c, ctx = some c ∧ StillSuspended h c ∧ c.stack ∈ s.allocated

/-- In every run whose steps meet `ok`. -/
def JumpsAreLive (ok : Sys → Lbl → Prop) : Prop :=
  ∀ (dirs : List Str8) (s s' : Sys) (h evs : List Event) (l : Lbl),
    Reach step ok (initial dirs) s h → ok s l → step s l = some (s', evs) →
    JumpsLiveAt s h evs

theorem engine_jumps_live {dirs : List Str8} {s s' : Sys} {h evs : List Event} {l : Lbl}
    (hr : Reach step Orderly (initial dirs) s h) (hok : Orderly s l)
    (hs : step s l = some (s', evs)) : JumpsLiveAt s h evs := by
  intro ctx hctx
  obtain ⟨a, -, hinv, hsusp⟩ := inv_reach hr
  obtain ⟨c, hc, hmem, hlive⟩ := (inv_step hinv hok hs).jump ctx hctx
  exact ⟨c, hc, hsusp c hmem, hlive⟩

/-- An asynchronous script that is started by its timer and suspends itself. -/
def suspendingRun : List Lbl :=
  [.executeAsync (some 1) (some 10) 5 true ⟨true, []⟩, .fire 2, .suspend 7]

theorem suspended_script_resumed : ∃ s h s' ctx,
    run step (initial []) suspendingRun = some (s, h) ∧
    step s (.fire 2) = some (s', [.longJump (some ctx)]) ∧
    JumpsLiveAt s h [.longJump (some ctx)] := by
  have hg : Guarded step Orderly (initial []) suspendingRun := by
    refine ⟨orderly_initial_async, fun _ _ _ => ⟨?_, fun _ _ _ => ⟨?_, fun _ _ _ => trivial⟩⟩⟩
    · exact Orderly.of_not_call trivial rfl
    · exact Orderly.of_not_call trivial rfl
  have hrun : ∃ s h s' ctx, run step (initial []) suspendingRun = some (s, h) ∧
      step s (.fire 2) = some (s', [.longJump (some ctx)]) := ⟨_, _, _, _, rfl, rfl⟩
  obtain ⟨s, h, s', ctx, hs, hfire⟩ := hrun
  have hok : Orderly s (.fire 2) := Orderly.of_not_call trivial rfl
  exact ⟨s, h, s', ctx, hs, hfire, engine_jumps_live (Reach.of_run hg hs) hok hfire⟩

/-- Two asynchronous scripts accepted before the first timer fires, the second
one not sharable: it completes, the interpreter is destroyed, and the timer of
the first script is still armed. -/
def danglingRun : List Lbl :=
  [.executeAsync (some 1) (some 10) 5 true ⟨true, []⟩,
   .executeAsync (some 1) (some 20) 5 false ⟨true, []⟩,
   .fire 2, .complete 0]

/-- The second timer jumps to a context that no script ever saved. -/
theorem second_timer_jumps_nowhere : ¬ JumpsAreLive Served := by
  intro hclaim
  have hg : Guarded step Served (initial []) danglingRun := by
    refine ⟨⟨by decide, rfl⟩, fun _ _ _ => ⟨⟨by decide, rfl⟩, fun _ _ _ => ⟨trivial, fun _ _ _ =>
      ⟨trivial, fun _ _ _ => trivial⟩⟩⟩⟩
  have hr := Reach.of_run hg rfl
  obtain ⟨c, hc, -⟩ := hclaim [] _ _ _ [.longJump none] (.fire 4) hr trivial rfl none (by simp)
  simp at hc

end EfiLvgl.Executor
