import EfiLvgl.Efi.Status
import Mathlib.Tactic.Push

/-!
# EfiLvgl.Efidirect.Pointer — the position of the pointer

`mouse_read` adds up what the pointer device reports. It divides a movement by the resolution of
the axis, which is 0 for an axis that there is not, after it has cut the 64 bits of the resolution
down to an `INT32`; the quotient and the sum are cut down to an `lv_coord_t`.
`pointer_tracked_iff` says when the position is that of the exact numbers.
-/

namespace EfiLvgl.Efidirect

/-- `lv_coord_t`. -/
abbrev LvCoord := Int16

/-- `EFI_SIMPLE_POINTER_MODE`, as far as it is read. -/
structure SimplePointerMode where
  resolutionX : UInt64
  resolutionY : UInt64

/-- `EFI_SIMPLE_POINTER_STATE`, as far as it is read. -/
structure SimplePointerState where
  relativeMovementX : Int32
  relativeMovementY : Int32
  leftButton : Bool

/-- What `GetState` answers. -/
abbrev StateAnswer := Except EfiStatus SimplePointerState

/-- `lv_indev_state_t`. -/
inductive IndevState where
  | rel
  | pr
deriving DecidableEq, Repr

/-- A position: the static `X` and `Y` of `mouse_read`, and `data->point`. -/
structure Point where
  x : LvCoord
  y : LvCoord
deriving DecidableEq, Repr

/-- `lv_indev_data_t`, as far as it is written. -/
structure IndevData where
  point : Point
  state : IndevState
deriving DecidableEq, Repr

/-- `n / d` in C. Two divisions are divide errors, and the call does not return. -/
def cDiv (n d : Int32) : Option Int32 :=
  if d = 0 ∨ n = Int32.minValue ∧ d = -1 then none else some (n / d)

/-- `(INT32)` of a resolution. -/
def int32 (resolution : UInt64) : Int32 := resolution.toUInt32.toInt32

/-- `X += (lv_coord_t)(State.RelativeMovementX / (INT32)gSimplePointer->Mode->ResolutionX)`, and
the same for `Y`. -/
def addMovement (coord : LvCoord) (movement : Int32) (resolution : UInt64) : Option LvCoord :=
  (cDiv movement (int32 resolution)).map fun quotient => coord + quotient.toInt16

/-- `MAX(X, 0)`. -/
def max0 (coord : LvCoord) : LvCoord := if 0 < coord then coord else 0

/-- `mouse_read`: the position afterwards, what is stored in `*data`, and what is returned. -/
def mouseRead (gSimplePointer : Option SimplePointerMode) (getState : StateAnswer)
    (position : Point) : Option (Point × Option IndevData × Bool) :=
  match gSimplePointer, getState with
  | none, _ => some (position, none, false)
  | some _, .error _ => some (position, none, false)
  | some mode, .ok state => do
      let x ← addMovement position.x state.relativeMovementX mode.resolutionX
      let y ← addMovement position.y state.relativeMovementY mode.resolutionY
      let position : Point := ⟨max0 x, max0 y⟩
      some (position, some ⟨position, if state.leftButton then .pr else .rel⟩, false)

/-! ## The exact numbers -/

/-- The coordinate that a movement leads to. Along an axis that there is not, nothing moves. -/
def trueCoord (coord : Int) (movement : Int32) (resolution : UInt64) : Int :=
  coord + movement.toInt.tdiv resolution.toNat

/-- A position without bounds. -/
structure TruePoint where
  x : Int
  y : Int

/-- The position after a read. -/
def TruePoint.after (mode : SimplePointerMode) (p : TruePoint) : StateAnswer → TruePoint
  | .error _ => p
  | .ok state =>
      ⟨max (trueCoord p.x state.relativeMovementX mode.resolutionX) 0,
        max (trueCoord p.y state.relativeMovementY mode.resolutionY) 0⟩

/-- The position is the exact one. -/
def Point.Shows (position : Point) (p : TruePoint) : Prop :=
  position.x.toInt = p.x ∧ position.y.toInt = p.y

/-- A read that returns with the exact position, in the data as well if it was successful. -/
def ReadTracked (mode : SimplePointerMode) (position : Point) (p : TruePoint)
    (getState : StateAnswer) (position' : Point) : Prop :=
  ∃ stored, mouseRead (some mode) getState position = some (position', stored, false) ∧
    position'.Shows (p.after mode getState) ∧
    ∀ state, getState = .ok state → stored.map IndevData.point = some position'

/-- All reads do. -/
def Tracked (mode : SimplePointerMode) : Point → TruePoint → List StateAnswer → Prop
  | _, _, [] => True
  | position, p, getState :: reads =>
      ∃ position', ReadTracked mode position p getState position' ∧
        Tracked mode position' (p.after mode getState) reads

/-- What is left of the resolution can be divided by, and what is lost when quotient and sum are
cut down does not show in the coordinate. -/
def AxisKept (coord : Int) (movement : Int32) (resolution : UInt64) : Prop :=
  int32 resolution ≠ 0 ∧ ¬ (movement = Int32.minValue ∧ int32 resolution = -1) ∧
    if 0 < trueCoord coord movement resolution then
      trueCoord coord movement resolution ≤ 32767 ∧
        65536 ∣ movement.toInt.tdiv (int32 resolution).toInt - movement.toInt.tdiv resolution.toNat
    else (coord + movement.toInt.tdiv (int32 resolution).toInt).bmod 65536 ≤ 0

/-- The movement that is reported, if any, keeps both axes. -/
def MovementKept (mode : SimplePointerMode) (p : TruePoint) : StateAnswer → Prop
  | .error _ => True
  | .ok state =>
      AxisKept p.x state.relativeMovementX mode.resolutionX ∧
        AxisKept p.y state.relativeMovementY mode.resolutionY

/-- All movements do, each from the exact position on. -/
def MovementsKept (mode : SimplePointerMode) : TruePoint → List StateAnswer → Prop
  | _, [] => True
  | p, getState :: reads =>
      MovementKept mode p getState ∧ MovementsKept mode (p.after mode getState) reads

/-! ## One axis -/

theorem toInt_max0 (coord : LvCoord) : (max0 coord).toInt = max coord.toInt 0 := by
  rw [max0]
  split
  · next hpos =>
      have hle : 0 < coord.toInt := Int16.lt_iff_toInt_lt.mp hpos
      exact (max_eq_left hle.le).symm
  · next hpos =>
      have hle : coord.toInt ≤ 0 := Int.not_lt.mp fun h => hpos (Int16.lt_iff_toInt_lt.mpr h)
      exact (max_eq_right hle).symm

/-- A sum that is cut down and clamped, against another sum that is clamped. -/
theorem max_bmod_eq_iff (coord quotient exact : Int) :
    max ((coord + quotient).bmod 65536) 0 = max (coord + exact) 0 ↔
      if 0 < coord + exact then coord + exact ≤ 32767 ∧ 65536 ∣ quotient - exact
      else (coord + quotient).bmod 65536 ≤ 0 := by
  rw [Int.bmod_def]
  split <;> split <;> omega

theorem addMovement_eq_none {coord : LvCoord} {movement : Int32} {resolution : UInt64}
    (h : int32 resolution = 0 ∨ movement = Int32.minValue ∧ int32 resolution = -1) :
    addMovement coord movement resolution = none := by
  rw [addMovement, cDiv, if_pos h]
  rfl

/-- Where there is no divide error. -/
theorem addMovement_eq_some (coord : LvCoord) {movement : Int32} {resolution : UInt64}
    (h : ¬ (int32 resolution = 0 ∨ movement = Int32.minValue ∧ int32 resolution = -1)) :
    ∃ c, addMovement coord movement resolution = some c ∧
      (max0 c).toInt =
        max ((coord.toInt + movement.toInt.tdiv (int32 resolution).toInt).bmod 65536) 0 := by
  refine ⟨coord + (movement / int32 resolution).toInt16, ?_, ?_⟩
  · rw [addMovement, cDiv, if_neg h]
    rfl
  · have hquotient : (movement / int32 resolution).toInt =
        movement.toInt.tdiv (int32 resolution).toInt := by
      by_cases hmin : movement = Int32.minValue
      · exact Int32.toInt_div_of_ne_right _ _ fun hone => h (.inr ⟨hmin, hone⟩)
      · exact Int32.toInt_div_of_ne_left _ _ hmin
    rw [toInt_max0, Int16.toInt_add, Int32.toInt_toInt16, hquotient, Int.add_bmod_bmod]

/-- An axis keeps its coordinate exactly under that condition. -/
theorem addMovement_kept_iff (coord : LvCoord) (movement : Int32) (resolution : UInt64) :
    (∃ c, addMovement coord movement resolution = some c ∧
        (max0 c).toInt = max (trueCoord coord.toInt movement resolution) 0) ↔
      AxisKept coord.toInt movement resolution := by
  by_cases h : int32 resolution = 0 ∨ movement = Int32.minValue ∧ int32 resolution = -1
  · -- a divide error keeps nothing
    rw [addMovement_eq_none h]
    constructor
    · rintro ⟨c, ⟨⟩, -⟩
    · rintro ⟨hzero, hmin, -⟩
      exact absurd h (not_or.mpr ⟨hzero, hmin⟩)
  · rcases addMovement_eq_some coord h with ⟨c, hc, hvalue⟩
    have hsum := max_bmod_eq_iff coord.toInt (movement.toInt.tdiv (int32 resolution).toInt)
      (movement.toInt.tdiv resolution.toNat)
    rw [← hvalue] at hsum
    rw [AxisKept, hc]
    rcases not_or.mp h with ⟨hzero, hmin⟩
    constructor
    · rintro ⟨_, ⟨⟩, hexact⟩
      exact ⟨hzero, hmin, hsum.mp hexact⟩
    · rintro ⟨-, -, hkept⟩
      exact ⟨c, rfl, hsum.mpr hkept⟩

theorem toInt_int32 {resolution : UInt64} (h : resolution.toNat < 2 ^ 31) :
    (int32 resolution).toInt = resolution.toNat := by
  have hnat : (int32 resolution).toBitVec.toNat = resolution.toNat := by
    show resolution.toNat % 2 ^ 32 = resolution.toNat
    exact Nat.mod_eq_of_lt (by omega)
  have hint : (int32 resolution).toBitVec.toInt = (int32 resolution).toBitVec.toNat :=
    BitVec.toInt_eq_toNat_of_lt (by omega)
  rw [← hnat]
  exact hint

/-- A resolution that an `INT32` holds, and a coordinate that an `lv_coord_t` holds. -/
theorem axisKept_of_fits {coord : Int} {movement : Int32} {resolution : UInt64}
    (hpos : 0 < resolution.toNat) (hsmall : resolution.toNat < 2 ^ 31)
    (hmin : -32768 ≤ trueCoord coord movement resolution)
    (hmax : trueCoord coord movement resolution ≤ 32767) : AxisKept coord movement resolution := by
  have hint := toInt_int32 hsmall
  refine ⟨?_, ?_, ?_⟩
  · intro hzero
    rw [hzero] at hint
    have heq : (0 : Int) = resolution.toNat := hint
    omega
  · rintro ⟨-, hone⟩
    rw [hone] at hint
    have heq : (-1 : Int) = resolution.toNat := hint
    omega
  · rw [hint]
    split
    · exact ⟨hmax, by rw [Int.sub_self]; exact Int.dvd_zero _⟩
    · next hneg =>
        rw [← trueCoord, Int.bmod_def]
        split <;> omega

/-! ## Reads -/

theorem ReadTracked.shows {mode : SimplePointerMode} {position position' : Point} {p : TruePoint}
    {getState : StateAnswer} (h : ReadTracked mode position p getState position') :
    position'.Shows (p.after mode getState) := by
  rcases h with ⟨stored, -, hshows, -⟩
  exact hshows

variable {mode : SimplePointerMode}

/-- A read against the exact position. -/
theorem readTracked_iff {position : Point} {p : TruePoint} (hp : position.Shows p)
    (getState : StateAnswer) :
    (∃ position', ReadTracked mode position p getState position') ↔
      MovementKept mode p getState := by
  cases getState with
  | error e =>
      refine iff_of_true ⟨position, none, rfl, hp, ?_⟩ trivial
      rintro state ⟨⟩
  | ok state =>
      rw [MovementKept, ← hp.1, ← hp.2, ← addMovement_kept_iff, ← addMovement_kept_iff]
      constructor
      · -- a read that has returned has not divided by zero on either axis
        rintro ⟨position', stored, hread, hshows, -⟩
        rw [mouseRead] at hread
        cases hx : addMovement position.x state.relativeMovementX mode.resolutionX with
        | none =>
            rw [hx] at hread
            cases hread
        | some x =>
            cases hy : addMovement position.y state.relativeMovementY mode.resolutionY with
            | none =>
                rw [hx, hy] at hread
                cases hread
            | some y =>
                rw [hx, hy] at hread
                cases hread
                rw [Point.Shows, TruePoint.after, ← hp.1, ← hp.2] at hshows
                exact ⟨⟨x, rfl, hshows.1⟩, ⟨y, rfl, hshows.2⟩⟩
      · rintro ⟨⟨x, hx, hxtrue⟩, ⟨y, hy, hytrue⟩⟩
        refine ⟨⟨max0 x, max0 y⟩,
          some ⟨⟨max0 x, max0 y⟩, if state.leftButton then .pr else .rel⟩, ?_, ?_, ?_⟩
        · rw [mouseRead, hx, hy]
          rfl
        · rw [Point.Shows, TruePoint.after, ← hp.1, ← hp.2]
          exact ⟨hxtrue, hytrue⟩
        · rintro _ ⟨⟩
          rfl

/-- Reads that start at an exact position. -/
theorem tracked_iff {position : Point} {p : TruePoint} (hp : position.Shows p)
    (reads : List StateAnswer) : Tracked mode position p reads ↔ MovementsKept mode p reads := by
  induction reads generalizing position p with
  | nil => exact Iff.rfl
  | cons getState reads ih =>
      rw [Tracked, MovementsKept, ← readTracked_iff hp getState]
      constructor
      · rintro ⟨position', hread, hrest⟩
        exact ⟨⟨position', hread⟩, (ih hread.shows).mp hrest⟩
      · rintro ⟨⟨position', hread⟩, hkept⟩
        exact ⟨position', hread, (ih hread.shows).mpr hkept⟩

/-- The position where the pointer is at first. -/
def origin : Point := ⟨0, 0⟩

/-- The pointer is where the exact numbers say, as long as what is lost when numbers are cut down
does not show. -/
theorem pointer_tracked_iff (mode : SimplePointerMode) (reads : List StateAnswer) :
    Tracked mode origin ⟨0, 0⟩ reads ↔ MovementsKept mode ⟨0, 0⟩ reads :=
  tracked_iff ⟨rfl, rfl⟩ reads

/-- Without a vertical axis, the first read is a divide error. -/
theorem absent_axis_divides_by_zero :
    mouseRead (some ⟨1, 0⟩) (.ok ⟨1, 0, false⟩) origin = none ∧
      ¬ Tracked ⟨1, 0⟩ origin ⟨0, 0⟩ [.ok ⟨1, 0, false⟩] := by
  refine ⟨rfl, ?_⟩
  rintro ⟨position', ⟨stored, hread, -⟩, -⟩
  cases hread

end EfiLvgl.Efidirect
