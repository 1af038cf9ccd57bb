import EfiLvgl.Console.ConIn

/-!
# EfiLvgl.Console.KeyQueue — keys are read in the order they were input

Along every run of calls, the keys read since the last reset are the first of those input
since then, and what is left of them is the queue (`inOrder_of_reach`). A reset drops what is
left (`conInReset_eq`), but it hands back the status its draining loop stopped at, which is
the `EFI_NOT_READY` of the empty queue: no reset ever succeeds. So the whole contract holds
along a run exactly when nobody resets (`queueOk_iff_no_reset`).
-/

namespace EfiLvgl.ConIn

open EfiLvgl.Run

/-! ## What one call does to the queue -/

theorem dequeKeyData_nil {dev : ConsoleDev} (h : dev.keyQueue = []) :
    dequeKeyData dev = (dev, .notReady, none) := by
  simp [dequeKeyData, h]

theorem dequeKeyData_cons {dev : ConsoleDev} {keyData : KeyData} {rest : List KeyData}
    (h : dev.keyQueue = keyData :: rest) :
    dequeKeyData dev = ({ dev with keyQueue := rest }, .success, some keyData) := by
  simp [dequeKeyData, h]

/-- The loop ends when there is nothing left, with the status that says so. -/
theorem cleanUpKeyQueue_eq : ∀ (queue : List KeyData) (dev : ConsoleDev), dev.keyQueue = queue →
    cleanUpKeyQueue dev = ({ dev with keyQueue := [] }, .notReady) := by
  intro queue
  induction queue with
  | nil =>
      intro dev h
      rw [cleanUpKeyQueue, dequeKeyData_nil h, ← h]
      rfl
  | cons keyData rest ih =>
      intro dev h
      rw [cleanUpKeyQueue, dequeKeyData_cons h]
      exact ih { dev with keyQueue := rest } rfl

/-- A reset empties the queue and fails. -/
theorem conInReset_eq (dev : ConsoleDev) :
    conInReset dev = ({ dev with keyQueue := [] }, .notReady, [.reset, .controllerError]) := by
  rw [conInReset, cleanUpKeyQueue_eq dev.keyQueue dev rfl]
  rfl

theorem readKeyStroke_nil {dev : ConsoleDev} (h : dev.keyQueue = []) :
    readKeyStroke dev = (dev, .notReady, none) := by
  rw [readKeyStroke, dequeKeyData_nil h]
  rfl

theorem readKeyStroke_cons {dev : ConsoleDev} {keyData : KeyData} {rest : List KeyData}
    (h : dev.keyQueue = keyData :: rest) :
    readKeyStroke dev = ({ dev with keyQueue := rest }, .success, some keyData.key) := by
  rw [readKeyStroke, dequeKeyData_cons h]
  rfl

theorem registerKeyNotify_keyQueue (dev : ConsoleDev) (keyData : Option KeyData)
    (callback notifyHandle allocated : Option Ptr) :
    (registerKeyNotify dev keyData callback notifyHandle allocated).1.keyQueue = dev.keyQueue := by
  unfold registerKeyNotify
  split
  · split
    · rfl
    · split <;> rfl
  · rfl

theorem unregisterKeyNotify_keyQueue (dev : ConsoleDev) (notifyHandle : Option Ptr) :
    (unregisterKeyNotify dev notifyHandle).1.keyQueue = dev.keyQueue := by
  unfold unregisterKeyNotify
  split
  · rfl
  · split <;> rfl

/-! ## Order -/

/-- The keys read are the first of those input, and the queue is the rest. -/
def InOrder (s : Session) : Prop :=
  ∃ taken, s.ledger.input = taken ++ s.dev.keyQueue ∧
    List.Forall₂ Delivered.Shows s.ledger.read taken

theorem InOrder.congr {s s' : Session} (h : InOrder s) (hqueue : s'.dev.keyQueue = s.dev.keyQueue)
    (hinput : s'.ledger.input = s.ledger.input) (hread : s'.ledger.read = s.ledger.read) :
    InOrder s' := by
  unfold InOrder
  rw [hqueue, hinput, hread]
  exact h

theorem InOrder.length_eq_iff {s : Session} (h : InOrder s) :
    s.ledger.read.length = s.ledger.input.length ↔ s.dev.keyQueue = [] := by
  rcases h with ⟨taken, hinput, hread⟩
  rw [hinput, List.length_append, hread.length_eq, List.eq_nil_iff_length_eq_zero]
  omega

/-- One key goes from the queue to the keys read. -/
theorem InOrder.deliver {s : Session} (h : InOrder s) {keyData : KeyData} {rest : List KeyData}
    (hqueue : s.dev.keyQueue = keyData :: rest) {delivered : Delivered}
    (hshows : delivered.Shows keyData) :
    InOrder ⟨{ s.dev with keyQueue := rest },
      { s.ledger with read := s.ledger.read ++ [delivered] }⟩ := by
  rcases h with ⟨taken, hinput, hread⟩
  refine ⟨taken ++ [keyData], ?_, ?_⟩
  · rw [hinput, hqueue, List.append_assoc]
    rfl
  · exact List.rel_append hread (List.Forall₂.cons hshows List.Forall₂.nil)

theorem inOrder_reset (dev : ConsoleDev) (ledger : Ledger) :
    InOrder ⟨{ dev with keyQueue := [] }, { ledger with input := [], read := [] }⟩ :=
  ⟨[], rfl, List.Forall₂.nil⟩

@[simp] theorem grant_input (ledger : Ledger) (registration : Registration) :
    (ledger.grant registration).input = ledger.input := by
  unfold Ledger.grant
  split <;> rfl

@[simp] theorem grant_read (ledger : Ledger) (registration : Registration) :
    (ledger.grant registration).read = ledger.read := by
  unfold Ledger.grant
  split <;> rfl

/-- A registration says nothing about keys. -/
theorem record_registerKeyNotify (ledger : Ledger) (keyData : Option KeyData)
    (callback notifyHandle allocated : Option Ptr) (reply : Reply) :
    (ledger.record (.registerKeyNotify keyData callback notifyHandle allocated) reply).input =
        ledger.input ∧
      (ledger.record (.registerKeyNotify keyData callback notifyHandle allocated) reply).read =
        ledger.read := by
  unfold Ledger.record
  split
  case h_6 heq =>
    cases heq
    exact ⟨grant_input _ _, grant_read _ _⟩
  case h_8 => exact ⟨rfl, rfl⟩
  all_goals
    next heq => cases heq

theorem record_unregisterKeyNotify (ledger : Ledger) (notifyHandle : Option Ptr) (reply : Reply) :
    (ledger.record (.unregisterKeyNotify notifyHandle) reply).input = ledger.input ∧
      (ledger.record (.unregisterKeyNotify notifyHandle) reply).read = ledger.read := by
  unfold Ledger.record
  cases notifyHandle with
  | none => exact ⟨rfl, rfl⟩
  | some handle =>
      dsimp only
      split <;> exact ⟨rfl, rfl⟩

/-! ## One step -/

/-- The calls that hand a key to their caller. -/
def Call.isRead : Call → Bool
  | .readKeyStroke => true
  | .readKeyStrokeEx keyData => keyData.isSome
  | _ => false

def Call.isReset : Call → Bool
  | .conInReset => true
  | .resetEx => true
  | _ => false

/-- What a step does to the keys, the status of a reset apart. -/
structure QueueStep (s s' : Session) (call : Call) (reply : Reply) : Prop where
  inOrder : InOrder s'
  /-- A read has nothing to give exactly when all has been read. -/
  read : call.isRead →
    (reply.status = .notReady ↔ s.ledger.read.length = s.ledger.input.length) ∧
      (reply.status ≠ .notReady →
        reply.status = .success ∧ s'.ledger.read.length = s.ledger.read.length + 1)
  reset : call.isReset → s'.dev.keyQueue = [] ∧ reply.status = .notReady
  /-- A key that finds memory is taken. -/
  input : ∀ keyData, call = .inputKey keyData true →
    reply.status = .success ∧ s'.ledger.input = s.ledger.input ++ [keyData]

theorem queueStep_of_step {s s' : Session} {call : Call} {reply : Reply}
    {evs : List (Call × Reply)} (h : InOrder s) (hstep : Session.step s call = some (s', evs))
    (hmem : (call, reply) ∈ evs) : QueueStep s s' call reply := by
  rcases Session.step_eq_some.mp hstep with ⟨dev, reply', hcall, rfl, rfl⟩
  cases List.mem_singleton.mp hmem
  cases call with
  | inputKey keyData allocated =>
      cases allocated with
      | true =>
          cases hcall
          -- the key goes to the end of the queue and of what has come in
          rcases h with ⟨taken, hinput, hread⟩
          refine ⟨⟨taken, ?_, hread⟩, by simp [Call.isRead], by simp [Call.isReset], ?_⟩
          · show s.ledger.input ++ [keyData] = taken ++ (s.dev.keyQueue ++ [keyData])
            rw [hinput, List.append_assoc]
          · intro keyData' heq
            cases heq
            exact ⟨rfl, rfl⟩
      | false =>
          cases hcall
          exact ⟨h, by simp [Call.isRead], by simp [Call.isReset], by simp⟩
  | readKeyStroke =>
      cases hqueue : s.dev.keyQueue with
      | nil =>
          simp only [ConsoleDev.call, readKeyStroke_nil hqueue] at hcall
          cases hcall
          refine ⟨h.congr rfl rfl (List.append_nil _), ?_, by simp [Call.isReset], by simp⟩
          simp [h.length_eq_iff, hqueue]
      | cons keyData rest =>
          -- the first key leaves the queue and is handed over
          simp only [ConsoleDev.call, readKeyStroke_cons hqueue] at hcall
          cases hcall
          refine ⟨h.deliver hqueue rfl, ?_, by simp [Call.isReset], by simp⟩
          simp [h.length_eq_iff, hqueue, Ledger.record]
  | readKeyStrokeEx buffer =>
      cases buffer with
      | none =>
          cases hcall
          exact ⟨h.congr rfl rfl (List.append_nil _), by simp [Call.isRead],
            by simp [Call.isReset], by simp⟩
      | some buffer =>
          cases hqueue : s.dev.keyQueue with
          | nil =>
              simp only [ConsoleDev.call, readKeyStrokeEx, dequeKeyData_nil hqueue] at hcall
              cases hcall
              refine ⟨h.congr rfl rfl (List.append_nil _), ?_, by simp [Call.isReset], by simp⟩
              simp [h.length_eq_iff, hqueue]
          | cons keyData rest =>
              simp only [ConsoleDev.call, readKeyStrokeEx, dequeKeyData_cons hqueue] at hcall
              cases hcall
              refine ⟨h.deliver hqueue rfl, ?_, by simp [Call.isReset], by simp⟩
              simp [h.length_eq_iff, hqueue, Ledger.record]
  | conInReset =>
      simp only [ConsoleDev.call, conInReset_eq] at hcall
      cases hcall
      exact ⟨inOrder_reset _ _, by simp [Call.isRead], fun _ => ⟨rfl, rfl⟩, by simp⟩
  | resetEx =>
      simp only [ConsoleDev.call, resetEx, conInReset_eq] at hcall
      cases hcall
      exact ⟨inOrder_reset _ _, by simp [Call.isRead], fun _ => ⟨rfl, rfl⟩, by simp⟩
  | setState keyToggleState =>
      cases keyToggleState <;> cases hcall <;>
        exact ⟨h.congr rfl rfl rfl, by simp [Call.isRead], by simp [Call.isReset], by simp⟩
  | waitForKey =>
      cases hcall
      exact ⟨h.congr rfl rfl rfl, by simp [Call.isRead], by simp [Call.isReset], by simp⟩
  | registerKeyNotify keyData callback notifyHandle allocated =>
      simp only [ConsoleDev.call] at hcall
      split at hcall
      · cases hcall
      · cases hcall
        have hrecord := record_registerKeyNotify s.ledger keyData callback notifyHandle allocated
        exact ⟨h.congr (registerKeyNotify_keyQueue _ _ _ _ _) (hrecord _).1 (hrecord _).2,
          by simp [Call.isRead], by simp [Call.isReset], by simp⟩
  | unregisterKeyNotify notifyHandle =>
      cases hcall
      have hrecord := record_unregisterKeyNotify s.ledger notifyHandle
      exact ⟨h.congr (unregisterKeyNotify_keyQueue _ _) (hrecord _).1 (hrecord _).2,
        by simp [Call.isRead], by simp [Call.isReset], by simp⟩

/-! ## Runs -/

theorem inOrder_initial (keyToggleState : UInt8) : InOrder (Session.initial keyToggleState) :=
  ⟨[], rfl, List.Forall₂.nil⟩

theorem inOrder_step {s s' : Session} {call : Call} {evs : List (Call × Reply)} (h : InOrder s)
    (hstep : Session.step s call = some (s', evs)) : InOrder s' := by
  rcases Session.step_eq_some.mp hstep with ⟨dev, reply, -, -, rfl⟩
  exact (queueStep_of_step h hstep (List.mem_singleton_self _)).inOrder

/-- Along any calls, keys are delivered in order, none lost and none twice. -/
theorem inOrder_of_reach {keyToggleState : UInt8} {s : Session} {h : List (Call × Reply)}
    (hr : Reach Session.step (fun _ _ => True) (Session.initial keyToggleState) s h) :
    InOrder s := by
  refine hr.invariant (fun s _ => InOrder s) (inOrder_initial keyToggleState) ?_
  intro s s' h evs call hs _ hstep
  exact inOrder_step hs hstep

/-- A console waits for a key exactly while there is one that has not been read. -/
theorem waitForKeyCallback_iff {keyToggleState : UInt8} {s : Session} {h : List (Call × Reply)}
    (hr : Reach Session.step (fun _ _ => True) (Session.initial keyToggleState) s h) :
    waitForKeyCallback s.dev = true ↔ s.ledger.read.length < s.ledger.input.length := by
  have hin := inOrder_of_reach hr
  have hlen : s.ledger.read.length ≤ s.ledger.input.length := by
    rcases hin with ⟨taken, hinput, hread⟩
    rw [hinput, List.length_append, hread.length_eq]
    omega
  have hempty := hin.length_eq_iff
  rw [waitForKeyCallback, isKeyQueueEmpty, Bool.not_eq_true', List.isEmpty_eq_false_iff]
  constructor
  · intro hne
    exact lt_of_le_of_ne hlen (mt hempty.mp hne)
  · intro hlt hnil
    have := hempty.mpr hnil
    omega

/-- The contract of the key queue for one step. -/
structure QueueOk (s s' : Session) (evs : List (Call × Reply)) : Prop where
  /-- What has been read is the first part of what was input, in order. -/
  inOrder : ∃ taken rest, s'.ledger.input = taken ++ rest ∧
    List.Forall₂ Delivered.Shows s'.ledger.read taken
  input : ∀ keyData reply, (Call.inputKey keyData true, reply) ∈ evs →
    reply.status = .success ∧ s'.ledger.input = s.ledger.input ++ [keyData]
  /-- A read is not ready exactly when all has been read, and delivers a key otherwise. -/
  read : ∀ call reply, (call, reply) ∈ evs → call.isRead →
    (reply.status = .notReady ↔ s.ledger.read.length = s.ledger.input.length) ∧
      (reply.status ≠ .notReady →
        reply.status = .success ∧ s'.ledger.read.length = s.ledger.read.length + 1)
  reset : ∀ call reply, (call, reply) ∈ evs → call.isReset →
    s'.dev.keyQueue = [] ∧ reply.status = .success

/-- A step meets the contract unless it is a reset. -/
theorem queueOk_iff {s s' : Session} {call : Call} {evs : List (Call × Reply)} (h : InOrder s)
    (hstep : Session.step s call = some (s', evs)) : QueueOk s s' evs ↔ call.isReset = false := by
  rcases Session.step_eq_some.mp hstep with ⟨dev, reply, -, -, hevs⟩
  have hstep' : QueueStep s s' call reply :=
    queueStep_of_step h hstep (hevs ▸ List.mem_singleton_self _)
  subst hevs
  constructor
  · intro hok
    by_contra hreset
    rw [Bool.not_eq_false] at hreset
    have hsuccess := (hok.reset call reply (List.mem_singleton_self _) hreset).2
    rw [(hstep'.reset hreset).2] at hsuccess
    cases hsuccess
  · intro hreset
    refine ⟨?_, ?_, ?_, ?_⟩
    · rcases hstep'.inOrder with ⟨taken, hinput, hread⟩
      exact ⟨taken, _, hinput, hread⟩
    · intro keyData reply' hmem
      cases List.mem_singleton.mp hmem
      exact hstep'.input keyData rfl
    · intro call' reply' hmem hread
      cases List.mem_singleton.mp hmem
      exact hstep'.read hread
    · intro call' reply' hmem hreset'
      cases List.mem_singleton.mp hmem
      rw [hreset] at hreset'
      cases hreset'

/-- Every call of a run meets the contract exactly when none of them is a reset. -/
theorem queueOk_iff_no_reset (keyToggleState : UInt8) (calls : List Call) (s : Session)
    (h : List (Call × Reply))
    (hrun : run Session.step (Session.initial keyToggleState) calls = some (s, h)) :
    Always Session.step QueueOk (Session.initial keyToggleState) calls ↔
      ∀ call ∈ calls, call.isReset = false := by
  have hguarded : Guarded Session.step (fun _ call => call.isReset = false)
      (Session.initial keyToggleState) calls ↔ ∀ call ∈ calls, call.isReset = false :=
    guarded_iff_forall_mem calls hrun
  rw [← hguarded]
  refine always_iff_guarded InOrder ?_ ?_ calls (inOrder_initial keyToggleState) hrun
  · intro s s' evs call hs hstep
    exact queueOk_iff hs hstep
  · intro s s' evs call hs _ hstep
    exact inOrder_step hs hstep

/-- A key is typed and read, and read again. -/
theorem queueOk_iff_no_reset_typed :
    Always Session.step QueueOk (Session.initial 0)
        [.inputKey ⟨⟨0, 97⟩, ⟨0, 0⟩⟩ true, .readKeyStroke, .readKeyStrokeEx (some 1)] ↔
      ∀ call ∈ ([.inputKey ⟨⟨0, 97⟩, ⟨0, 0⟩⟩ true, .readKeyStroke,
        .readKeyStrokeEx (some 1)] : List Call), call.isReset = false :=
  queueOk_iff_no_reset 0 _ _ _ rfl

/-- A reset of an empty queue fails with `EFI_NOT_READY`. -/
theorem reset_not_ready : ¬ ∀ (keyToggleState : UInt8) (calls : List Call) (s : Session)
    (h : List (Call × Reply)),
    run Session.step (Session.initial keyToggleState) calls = some (s, h) →
      Always Session.step QueueOk (Session.initial keyToggleState) calls := by
  intro hall
  have hstep : Session.step (Session.initial 0) .conInReset =
      some (Session.initial 0,
        [(.conInReset, { status := .notReady, reported := [.reset, .controllerError] })]) := by
    rw [Session.step, ConsoleDev.call, conInReset_eq]
    rfl
  have hrun : run Session.step (Session.initial 0) [.conInReset] =
      some (Session.initial 0,
        [(.conInReset, { status := .notReady, reported := [.reset, .controllerError] })]) := by
    simp [run, hstep]
  have hok := (hall 0 [.conInReset] _ _ hrun _ _ hstep).1
  have hsuccess := (hok.reset _ _ (List.mem_singleton_self _) rfl).2
  cases hsuccess

end EfiLvgl.ConIn
