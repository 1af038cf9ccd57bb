import EfiLvgl.Efi.Status
import EfiLvgl.Lib.Run

/-!
# EfiLvgl.Efidirect.Monitor — the display driver

`monitor_init` allocates the private record and looks for the graphics protocol, `monitor_flush`
copies pixels to all displays and acknowledges, and `monitor_deinit` frees the record. When the
protocol is not found the record is freed, but `tPrivate` still points to it; and when no display
is found nothing is acknowledged. `driver_sound_iff`: nothing else goes wrong.

An `ASSERT` that fails is an effect, and the call goes on behind it.
-/

namespace EfiLvgl.Efidirect

open EfiLvgl.Run

/-! ## The driver -/

/-- `EFI_GRAPHICS_OUTPUT_PROTOCOL *`, with the resolution of `Mode->Info`. -/
structure Gop where
  protocol : Ptr
  horizontalResolution : UInt32
  verticalResolution : UInt32
deriving DecidableEq, Repr

/-- `MONITOR_PRIVATE`. -/
structure MonitorPrivate where
  gop : Option Gop
  width : Nat
  height : Nat
deriving DecidableEq, Repr

/-- What `AllocateZeroPool` leaves in it. -/
def MonitorPrivate.zero : MonitorPrivate := ⟨none, 0, 0⟩

/-- What `monitor_init` stores in it. -/
def MonitorPrivate.setGop (record : MonitorPrivate) (gop : Gop) : MonitorPrivate where
  gop := some gop
  width := min record.width gop.horizontalResolution.toNat
  height := min record.height gop.verticalResolution.toNat

/-- `tPrivate`, with what it points to. -/
inductive PrivatePtr where
  | null
  | allocated (record : MonitorPrivate)
  /-- Memory that has been freed. -/
  | freed
deriving DecidableEq, Repr

/-- `lv_area_t`. -/
structure Area where
  x1 : Int16
  y1 : Int16
  x2 : Int16
  y2 : Int16
deriving DecidableEq, Repr

/-- The first argument of `Blt`: the pixels of LVGL, or the single pixel of `monitor_init`. -/
inductive BltBuffer where
  | colors (colorP : Ptr)
  | pixel
deriving DecidableEq, Repr

/-- What a call does outside of the driver. -/
inductive Effect where
  | assertFalse
  /-- `tPrivate->Gop` is read. -/
  | readPrivate (p : PrivatePtr)
  | freePool (p : PrivatePtr)
  | freeHandles
  | blt (gop : Gop) (buffer : BltBuffer) (x y width height : Int16)
  /-- `lv_disp_flush_ready`. -/
  | flushReady
deriving DecidableEq, Repr

/-- What `LocateHandleBuffer` answers: for each handle, what `HandleProtocol` answers. -/
abbrev HandlesAnswer := Except EfiStatus (List (Except EfiStatus Gop))

/-- What `monitor_init` is answered; `pool` is whether `AllocateZeroPool` has memory. -/
structure InitAnswers where
  pool : Bool
  locateProtocol : Except EfiStatus Gop
  handles : HandlesAnswer

/-- `monitor_flush`. -/
def monitorFlush (tPrivate : PrivatePtr) (area : Area) (colorP : Ptr) (handles : HandlesAnswer) :
    List Effect :=
  let w := area.x2 - area.x1 + 1
  let h := area.y2 - area.y1 + 1
  .readPrivate tPrivate ::
    match handles with
    | .error _ => []
    | .ok [] => []
    | .ok handles =>
        (handles.filterMap fun
          | .error _ => none
          | .ok gop => some (Effect.blt gop (.colors colorP) area.x1 area.y1 w h)) ++
        [.freeHandles, .flushReady]

/-- `monitor_init`. -/
def monitorInit (tPrivate : PrivatePtr) (answers : InitAnswers) : PrivatePtr × List Effect :=
  match tPrivate with
  | .null =>
      if answers.pool then
        match answers.locateProtocol with
        -- the record is freed, and `tPrivate` is left as it is
        | .error _ => (.freed, [.assertFalse, .freePool (.allocated .zero)])
        | .ok gop =>
            (.allocated (MonitorPrivate.zero.setGop gop),
              match answers.handles with
              | .error _ => []
              | .ok [] => []
              | .ok _ => [.blt gop .pixel 0 0 100 100])
      else (.null, [.assertFalse])
  -- already inited
  | tPrivate => (tPrivate, [])

/-- `monitor_deinit`. -/
def monitorDeinit (tPrivate : PrivatePtr) : PrivatePtr × List Effect := (.null, [.freePool tPrivate])

/-! ## Calls one after the other -/

/-- A call, with what it is answered. -/
inductive MonitorCall where
  | init (answers : InitAnswers)
  | flush (area : Area) (colorP : Ptr) (handles : HandlesAnswer)
  | deinit

/-- What a call does. -/
def MonitorCall.body (tPrivate : PrivatePtr) : MonitorCall → PrivatePtr × List Effect
  | .init answers => monitorInit tPrivate answers
  | .flush area colorP handles => (tPrivate, monitorFlush tPrivate area colorP handles)
  | .deinit => monitorDeinit tPrivate

/-- The memory and the protocol that `monitor_init` asks for are there. -/
def InitAnswers.Succeed (answers : InitAnswers) : Prop :=
  answers.pool = true ∧ ∃ gop, answers.locateProtocol = .ok gop

instance (answers : InitAnswers) : Decidable answers.Succeed :=
  decidable_of_iff (answers.pool = true ∧ answers.locateProtocol.isOk = true) <| by
    unfold InitAnswers.Succeed
    cases answers.locateProtocol <;> simp [Except.isOk, Except.toBool]

/-- Whether there has been a successful `monitor_init` since the last `monitor_deinit`. -/
def MonitorCall.up (up : Bool) : MonitorCall → Bool
  | .init answers => up || decide answers.Succeed
  | .flush .. => up
  | .deinit => false

/-- The driver, and what has become of it. -/
structure Driver where
  tPrivate : PrivatePtr
  up : Bool
deriving DecidableEq, Repr

/-- A call, recorded with its effects. -/
def driverStep : Step Driver MonitorCall (MonitorCall × List Effect) := fun s call =>
  some (⟨(call.body s.tPrivate).1, call.up s.up⟩, [(call, (call.body s.tPrivate).2)])

/-- `STATIC MONITOR_PRIVATE *tPrivate = NULL`. -/
def driverInit : Driver := ⟨.null, false⟩

/-- `NULL`, or an allocated record with the protocol that was found. -/
def PrivatePtr.Valid : PrivatePtr → Prop
  | .null => True
  | .allocated record => record.gop.isSome
  | .freed => False

/-- What a call is expected to do: `tPrivate` is valid, a failed `monitor_init` leaves it `NULL`,
and a `monitor_flush` of a driver that is up acknowledges once. -/
def CallKept (s s' : Driver) (call : MonitorCall) (effects : List Effect) : Prop :=
  s'.tPrivate.Valid ∧
    match call with
    | .init answers => s.up = false → ¬ answers.Succeed → s'.tPrivate = .null
    | .flush .. => s.up = true → effects.count .flushReady = 1
    | .deinit => True

/-- A `monitor_init` that gets memory finds the protocol, and a `monitor_flush` of a driver that is
up finds handles. -/
def CallOk (s : Driver) : MonitorCall → Prop
  | .init answers => s.up = false → answers.pool = true → ∃ gop, answers.locateProtocol = .ok gop
  | .flush _ _ handles => s.up = true → ∃ first rest, handles = .ok (first :: rest)
  | .deinit => True

/-! ## One call -/

/-- The driver is up when there is a record. -/
def DriverInv (s : Driver) : Prop :=
  s.tPrivate.Valid ∧ (s.up = true ↔ s.tPrivate ≠ .null)

theorem DriverInv.null {s : Driver} (hs : DriverInv s) (hup : s.up = false) :
    s.tPrivate = .null := by
  by_contra hne
  rw [hs.2.mpr hne] at hup
  cases hup

theorem driverInv_init : DriverInv driverInit := by
  refine ⟨trivial, ?_⟩
  simp [driverInit]

/-- A flush is acknowledged when there are displays, and then once. -/
theorem monitorFlush_acknowledges_iff (tPrivate : PrivatePtr) (area : Area) (colorP : Ptr)
    (handles : HandlesAnswer) :
    (monitorFlush tPrivate area colorP handles).count .flushReady = 1 ↔
      ∃ first rest, handles = .ok (first :: rest) := by
  cases handles with
  | error e =>
      refine iff_of_false Nat.zero_ne_one ?_
      rintro ⟨first, rest, ⟨⟩⟩
  | ok handles =>
      cases handles with
      | nil =>
          refine iff_of_false Nat.zero_ne_one ?_
          rintro ⟨first, rest, ⟨⟩⟩
      | cons first rest =>
          refine iff_of_true ?_ ⟨first, rest, rfl⟩
          have hnone : ∀ f : Except EfiStatus Gop → Option Effect,
              (∀ answer, f answer ≠ some .flushReady) →
              ((first :: rest).filterMap f).count .flushReady = 0 := by
            intro f hf
            rw [List.count_eq_zero, List.mem_filterMap]
            rintro ⟨answer, -, hanswer⟩
            exact hf answer hanswer
          show List.count Effect.flushReady (_ :: (List.filterMap _ (first :: rest) ++ _)) = 1
          rw [List.count_cons_of_ne (by rintro ⟨⟩), List.count_append, hnone]
          · rfl
          · rintro (e | gop) ⟨⟩

/-- What becomes of `tPrivate` when the driver was not there. -/
theorem monitorInit_null (answers : InitAnswers) :
    (answers.Succeed ∧ ∃ record, (monitorInit .null answers).1 = .allocated record ∧
        record.gop.isSome) ∨
      (answers.pool = false ∧ (monitorInit .null answers).1 = .null) ∨
      (answers.pool = true ∧ (∃ status, answers.locateProtocol = .error status) ∧
        (monitorInit .null answers).1 = .freed) := by
  cases hpool : answers.pool with
  | false =>
      refine .inr (.inl ⟨rfl, ?_⟩)
      simp [monitorInit, hpool]
  | true =>
      cases hlocate : answers.locateProtocol with
      | error status =>
          refine .inr (.inr ⟨rfl, ⟨status, rfl⟩, ?_⟩)
          simp [monitorInit, hpool, hlocate]
      | ok gop =>
          refine .inl ⟨⟨hpool, gop, hlocate⟩, MonitorPrivate.zero.setGop gop, ?_, rfl⟩
          simp [monitorInit, hpool, hlocate]

theorem monitorInit_of_ne {tPrivate : PrivatePtr} (h : tPrivate ≠ .null) (answers : InitAnswers) :
    (monitorInit tPrivate answers).1 = tPrivate := by
  cases tPrivate with
  | null => exact absurd rfl h
  | allocated record => rfl
  | freed => rfl

/-- What is known of a call of a sound driver. -/
def CallSpec (s s' : Driver) (call : MonitorCall) (effects : List Effect) : Prop :=
  (CallKept s s' call effects ↔ CallOk s call) ∧ (CallOk s call → DriverInv s')

section Calls

variable {s s' : Driver}

/-- A second `monitor_init` changes nothing. -/
theorem init_again_spec (hs : DriverInv s) (hsup : s.up = true) {answers : InitAnswers}
    (effects : List Effect) (hprivate : s'.tPrivate = (monitorInit s.tPrivate answers).1)
    (hup : s'.up = (s.up || decide answers.Succeed)) :
    CallSpec s s' (.init answers) effects := by
  have hne : s.tPrivate ≠ .null := hs.2.mp hsup
  rw [monitorInit_of_ne hne] at hprivate
  rw [hsup, Bool.true_or] at hup
  have hvalid : s'.tPrivate.Valid := hprivate ▸ hs.1
  have hnot : s.up ≠ false := by
    rw [hsup]
    decide
  refine ⟨iff_of_true ⟨hvalid, fun hdown => absurd hdown hnot⟩ fun hdown => absurd hdown hnot,
    fun _ => ⟨hvalid, ?_⟩⟩
  exact iff_of_true hup (hprivate ▸ hne)

theorem init_spec (hs : DriverInv s) (hsup : s.up = false) {answers : InitAnswers}
    (effects : List Effect) (hprivate : s'.tPrivate = (monitorInit s.tPrivate answers).1)
    (hup : s'.up = (s.up || decide answers.Succeed)) :
    CallSpec s s' (.init answers) effects := by
  rw [hs.null hsup] at hprivate
  rw [hsup, Bool.false_or] at hup
  rcases monitorInit_null answers with
    ⟨hsucceed, record, hrecord, hgop⟩ | ⟨hpool, hnull⟩ | ⟨hpool, ⟨status, herror⟩, hfreed⟩
  · -- the driver is up
    rw [hrecord] at hprivate
    have hvalid : s'.tPrivate.Valid := by
      rw [hprivate]
      exact hgop
    refine ⟨iff_of_true ⟨hvalid, fun _ hnot => absurd hsucceed hnot⟩ fun _ _ => hsucceed.2,
      fun _ => ⟨hvalid, ?_⟩⟩
    rw [hup, hprivate]
    simp [hsucceed]
  · -- without memory nothing has changed
    rw [hnull] at hprivate
    have hvalid : s'.tPrivate.Valid := by
      rw [hprivate]
      trivial
    have hnomemory : answers.pool ≠ true := by
      rw [hpool]
      decide
    have hfails : ¬ answers.Succeed := fun h => hnomemory h.1
    refine ⟨iff_of_true ⟨hvalid, fun _ _ => hprivate⟩ fun _ h => absurd h hnomemory,
      fun _ => ⟨hvalid, ?_⟩⟩
    rw [hup, hprivate]
    simp [hfails]
  · -- the pointer is left behind
    rw [hfreed] at hprivate
    have hnot : ¬ CallOk s (.init answers) := by
      intro hok
      rcases hok hsup hpool with ⟨gop, hgop⟩
      rw [herror] at hgop
      cases hgop
    refine ⟨iff_of_false ?_ hnot, fun hok => absurd hok hnot⟩
    rintro ⟨hvalid, -⟩
    rw [hprivate] at hvalid
    exact hvalid

theorem flush_spec (hs : DriverInv s) {area : Area} {colorP : Ptr} {handles : HandlesAnswer}
    (hprivate : s'.tPrivate = s.tPrivate) (hup : s'.up = s.up) :
    CallSpec s s' (.flush area colorP handles) (monitorFlush s.tPrivate area colorP handles) := by
  have hvalid : s'.tPrivate.Valid := hprivate ▸ hs.1
  rw [CallSpec, CallKept, CallOk, monitorFlush_acknowledges_iff]
  refine ⟨⟨And.right, fun hok => ⟨hvalid, hok⟩⟩, fun _ => ⟨hvalid, ?_⟩⟩
  rw [hup, hprivate]
  exact hs.2

theorem deinit_spec (effects : List Effect) (hprivate : s'.tPrivate = .null)
    (hup : s'.up = false) : CallSpec s s' .deinit effects := by
  have hvalid : s'.tPrivate.Valid := by
    rw [hprivate]
    trivial
  refine ⟨iff_of_true ⟨hvalid, trivial⟩ trivial, fun _ => ⟨hvalid, ?_⟩⟩
  rw [hup, hprivate]
  simp

theorem driverStep_spec (hs : DriverInv s) (call : MonitorCall) :
    CallSpec s ⟨(call.body s.tPrivate).1, call.up s.up⟩ call (call.body s.tPrivate).2 := by
  cases call with
  | init answers =>
      cases hsup : s.up with
      | true => exact init_again_spec hs hsup _ rfl (hsup ▸ rfl)
      | false => exact init_spec hs hsup _ rfl (hsup ▸ rfl)
  | flush area colorP handles => exact flush_spec hs rfl rfl
  | deinit => exact deinit_spec _ rfl rfl

end Calls

/-! ## All calls -/

/-- Every call does what is expected exactly if every `monitor_init` that gets memory finds the
protocol, and every `monitor_flush` of a driver that is up finds a display. -/
theorem driver_sound_iff (calls : List MonitorCall) :
    Always driverStep (fun s s' evs => ∀ e ∈ evs, CallKept s s' e.1 e.2) driverInit calls ↔
      Guarded driverStep CallOk driverInit calls := by
  rcases exists_run (fun s call => ⟨_, _, rfl⟩) driverInit calls with ⟨s', evs, hrun⟩
  apply always_iff_guarded DriverInv _ _ calls driverInv_init hrun
  · rintro s _ _ call hs ⟨⟩
    rw [List.forall_mem_singleton]
    exact (driverStep_spec hs call).1
  · rintro s _ _ call hs hok ⟨⟩
    exact (driverStep_spec hs call).2 hok

/-- A graphics protocol. -/
def someGop : Gop := ⟨0x1000, 1024, 768⟩

/-- Without the protocol the pointer stays behind, and without displays a flush never ends. -/
theorem driver_left_behind :
    ¬ Always driverStep (fun s s' evs => ∀ e ∈ evs, CallKept s s' e.1 e.2) driverInit
        [.init ⟨true, .error .notFound, .error .notFound⟩] ∧
      ¬ Always driverStep (fun s s' evs => ∀ e ∈ evs, CallKept s s' e.1 e.2) driverInit
        [.init ⟨true, .ok someGop, .error .notFound⟩, .flush ⟨0, 0, 9, 9⟩ 0x2000 (.ok [])] := by
  constructor
  · intro halways
    rcases (halways _ _ rfl).1 _ (List.mem_singleton_self _) with ⟨hvalid, -⟩
    exact hvalid
  · intro halways
    have hrest := (halways _ _ rfl).2
    rcases (hrest _ _ rfl).1 _ (List.mem_singleton_self _) with ⟨-, hflush⟩
    exact absurd (hflush rfl) (by decide)

end EfiLvgl.Efidirect
