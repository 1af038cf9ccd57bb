import EfiLvgl.Mapping.Stack
import EfiLvgl.Lib.Halt
import Mathlib.Data.Nat.Count

/-!
# EfiLvgl.Mapping.Walk — the walks over a device path in memory

`GetHIDevicePath` and `GetDeviceConsistMappingInfo` go through the same path by the length fields of
its nodes. The first one also stops at a node of length 0; the second one does not, and stays there.
Nor does it come back from an iSCSI node that is too short for its fields, where names are decoded
(`returns_iff_advances`). On the bytes of a well-formed path both do what they do on the list of its
nodes (`hiWalk_stored`, `consistWalk_stored`).
-/

namespace EfiLvgl.Mapping

/-- What memory holds. -/
abbrev Bytes := Nat → UInt8

/-! ## Nodes in memory -/

section Node

variable (mem : Bytes) (node : Nat)

/-- `IsDevicePathEnd`. -/
def isDevicePathEnd : Bool := mem node = 0x7f && mem (node + 1) = 0xff

/-- `DevicePathNodeLength`. -/
def devicePathNodeLength : Nat := (mem (node + 2)).toNat + 256 * (mem (node + 3)).toNat

/-- `NextDevicePathNode`. -/
def nextDevicePathNode : Nat := node + devicePathNodeLength mem node

/-- `IsHIDevicePathNode`; the number is in the upper half of `Acpi->HID`. -/
def isHINode : Bool :=
  if mem node = 0x01 then true
  else if mem node = 0x02 then
    (mem (node + 6)).toNat + 256 * (mem (node + 7)).toNat ∉ [0x0301, 0x0401, 0x0501, 0x0604]
  else false

/-- The bytes of a node, as `AppendDevicePathNode` copies them. -/
def nodeBytes : List UInt8 :=
  (List.range (devicePathNodeLength mem node)).map fun i => mem (node + i)

/-- The function of `DevPathConsistMappingTable` for a node, else the default. -/
def serialFunAt : Serialiser :=
  (devPathConsistMappingTable.lookup (mem node, mem (node + 1))).getD .default

/-- The `HID` of a floppy drive, `PNP0604`. -/
def isFloppy : Bool :=
  mem (node + 4) = 0xd0 && mem (node + 5) = 0x41 && mem (node + 6) = 0x04 && mem (node + 7) = 0x06

/-- `sizeof (ISCSI_DEVICE_PATH)`. -/
def sizeofISCSIDevicePath : Nat := 18

/-- The status of a serialiser is that of the first of its requests to the pool and to the boot
services that fails. The default one has none, that of an ACPI node only for a floppy drive, and
that of an iSCSI node only where its names are decoded. In a shorter iSCSI node the length of the
name wraps around: the copy of the name goes on behind the end of memory and does not return. -/
def serialStatus (platform : Platform) (answer : EfiStatus) : Option EfiStatus :=
  match serialFunAt mem node with
  | .default => some .success
  | .acpi => some (if isFloppy mem node then answer else .success)
  | .iScsi =>
      if platform.shellDecodeIScsiMapNames then
        if answer.isError then some answer
        else if devicePathNodeLength mem node < sizeofISCSIDevicePath then none
        else some answer
      else some .success
  | _ => some answer

end Node

/-! ## The two walks -/

/-- The variables of the loop of `GetHIDevicePath`, of the path that is built the nodes, and the
number of rounds made. -/
structure HIWalk where
  devicePath : Nat
  nonHIDevicePathNodeCount : Nat
  hiDevicePath : Option (List (List UInt8))
  round : Nat

/-- `Node`: the end of an instance. -/
def endInstanceBytes : List UInt8 := [0x7f, 0x01, 4, 0]

/-- `AppendDevicePathNode`, which gives `NULL` where the pool has nothing, and `FreePool` of the path
so far: of `NULL` it fails its assertion. -/
def appendNode (served : Bool) (hiDevicePath : Option (List (List UInt8))) (node : List UInt8) :
    Except Stop (Option (List (List UInt8))) :=
  match hiDevicePath with
  | none => .error .assertion
  | some nodes => .ok (if served then some (nodes ++ [node]) else none)

/-- One node after the other, from the `i`-th request of the round on. -/
def appendNodes (served : Nat → Bool) :
    Nat → List (List UInt8) → Option (List (List UInt8)) → Except Stop (Option (List (List UInt8)))
  | _, [], hiDevicePath => .ok hiDevicePath
  | i, node :: nodes, hiDevicePath =>
      match appendNode (served i) hiDevicePath node with
      | .error stop => .error stop
      | .ok hiDevicePath => appendNodes served (i + 1) nodes hiDevicePath

/-- What a round of `GetHIDevicePath` appends for a HI node. -/
def HIWalk.appended (mem : Bytes) (append : Nat → Nat → Bool) (w : HIWalk) :
    Except Stop (Option (List (List UInt8))) :=
  appendNodes (append w.round) 0
    (List.replicate w.nonHIDevicePathNodeCount endInstanceBytes ++ [nodeBytes mem w.devicePath])
    w.hiDevicePath

/-- The loop of `GetHIDevicePath` stops. -/
def hiStop (mem : Bytes) (w : HIWalk) : Bool :=
  isDevicePathEnd mem w.devicePath || devicePathNodeLength mem w.devicePath = 0

/-- Its body does not get over a failed assertion. -/
def hiAsserts (mem : Bytes) (append : Nat → Nat → Bool) (w : HIWalk) : Bool :=
  isHINode mem w.devicePath && !(w.appended mem append).isOk

/-- Its body otherwise. -/
def hiBody (mem : Bytes) (append : Nat → Nat → Bool) (w : HIWalk) : HIWalk :=
  if isHINode mem w.devicePath then
    { devicePath := nextDevicePathNode mem w.devicePath
      nonHIDevicePathNodeCount := w.nonHIDevicePathNodeCount
      hiDevicePath := (w.appended mem append).toOption.join
      round := w.round + 1 }
  else
    { w with
      devicePath := nextDevicePathNode mem w.devicePath
      nonHIDevicePathNodeCount := w.nonHIDevicePathNodeCount + 1
      round := w.round + 1 }

/-- The loop of `GetHIDevicePath`. -/
def hiStep (mem : Bytes) (append : Nat → Nat → Bool) : HIWalk → Option HIWalk :=
  whileNot (hiStop mem) (stuckAt (hiAsserts mem append) (hiBody mem append))

/-- Where `GetHIDevicePath` starts, with an end node (`SetDevicePathEndNode` asserts that there was
memory for it). -/
def hiStart (devicePath : Nat) : HIWalk := ⟨devicePath, 0, some [], 0⟩

/-- What a call of `GetConsistMappingName` depends on: the platform, how the requests of the
serialiser are answered in each round of its loop, and which requests of `AppendDevicePathNode` are
served in each round of the other one. -/
structure Surroundings where
  platform : Platform
  answer : Nat → EfiStatus
  append : Nat → Nat → Bool

/-- The variables of the loop of `GetDeviceConsistMappingInfo`, and the number of rounds made. -/
structure ConsistWalk where
  devicePath : Nat
  round : Nat

/-- What `SerialFun` returns in a round, if it does. -/
def ConsistWalk.status (mem : Bytes) (sur : Surroundings) (w : ConsistWalk) : Option EfiStatus :=
  serialStatus mem w.devicePath sur.platform (sur.answer w.round)

/-- The loop of `GetDeviceConsistMappingInfo` stops. -/
def consistStop (mem : Bytes) (sur : Surroundings) (w : ConsistWalk) : Bool :=
  isDevicePathEnd mem w.devicePath || (w.status mem sur).any EfiStatus.isError

/-- Its body does not get over a `SerialFun` that does not return. -/
def consistStuck (mem : Bytes) (sur : Surroundings) (w : ConsistWalk) : Bool :=
  (w.status mem sur).isNone

/-- Its body otherwise. -/
def consistBody (mem : Bytes) (w : ConsistWalk) : ConsistWalk :=
  ⟨nextDevicePathNode mem w.devicePath, w.round + 1⟩

/-- The loop of `GetDeviceConsistMappingInfo`. -/
def consistStep (mem : Bytes) (sur : Surroundings) : ConsistWalk → Option ConsistWalk :=
  whileNot (consistStop mem sur) (stuckAt (consistStuck mem sur) (consistBody mem))

/-- What it returns where it stops. -/
def ConsistWalk.result (mem : Bytes) (sur : Surroundings) (w : ConsistWalk) : EfiStatus :=
  if isDevicePathEnd mem w.devicePath then .success else (w.status mem sur).getD .success

/-- `GetConsistMappingName` on its way: in one of the two walks. -/
inductive NameWalk where
  | hi (w : HIWalk)
  | consist (w : ConsistWalk)

/-- It goes on with the second walk when there is a hardware part of the path, and it is in the
table. -/
def nameStep (mem : Bytes) (sur : Surroundings) (inTable : List (List UInt8) → Bool)
    (devicePath : Nat) : NameWalk → Option NameWalk
  | .hi w =>
      match hiStep mem sur.append w with
      | some w' => some (.hi w')
      | none =>
          match w.hiDevicePath with
          | none => none
          | some nodes => if inTable nodes then some (.consist ⟨devicePath, 0⟩) else none
  | .consist w => (consistStep mem sur w).map .consist

/-- `GetHIDevicePath` returns. -/
def HIReturns (mem : Bytes) (sur : Surroundings) (devicePath : Nat) : Prop :=
  Halts (hiStep mem sur.append) (hiStart devicePath)

/-- `GetDeviceConsistMappingInfo` returns. -/
def ConsistReturns (mem : Bytes) (sur : Surroundings) (devicePath : Nat) : Prop :=
  Halts (consistStep mem sur) ⟨devicePath, 0⟩

/-- `GetConsistMappingName` returns, whatever the table holds. -/
def NameReturns (mem : Bytes) (sur : Surroundings) (devicePath : Nat) : Prop :=
  ∀ inTable, Halts (nameStep mem sur inTable devicePath) (.hi (hiStart devicePath))

/-! ## Where they stop -/

/-- The `n`-th node. -/
def nthNode (mem : Bytes) (devicePath n : Nat) : Nat := (nextDevicePathNode mem)^[n] devicePath

/-- The end node is not among the first `n + 1`. -/
def Inside (mem : Bytes) (devicePath n : Nat) : Prop :=
  ∀ i ≤ n, isDevicePathEnd mem (nthNode mem devicePath i) = false

/-- No node in front of the end node has length 0. -/
def Advances (mem : Bytes) (devicePath : Nat) : Prop :=
  ∀ n, Inside mem devicePath n → devicePathNodeLength mem (nthNode mem devicePath n) ≠ 0

/-- At the `n`-th node the serialiser copies a name of negative length: an iSCSI node that is too
short, where names are decoded and all requests are served. -/
def Overruns (mem : Bytes) (sur : Surroundings) (devicePath n : Nat) : Prop :=
  serialFunAt mem (nthNode mem devicePath n) = .iScsi ∧
    sur.platform.shellDecodeIScsiMapNames = true ∧ (sur.answer n).isError = false ∧
    devicePathNodeLength mem (nthNode mem devicePath n) < sizeofISCSIDevicePath

/-- A serialiser returns an error at a node in front of the end node, before another one overruns. -/
def SerialFunFails (mem : Bytes) (sur : Surroundings) (devicePath : Nat) : Prop :=
  ∃ n, Inside mem devicePath n ∧
    (serialStatus mem (nthNode mem devicePath n) sur.platform (sur.answer n)).any
      EfiStatus.isError = true ∧
    ∀ i < n, ¬ Overruns mem sur devicePath i

/-- How many of the first `n` nodes are no HI nodes. -/
def nonHINodes (mem : Bytes) (devicePath n : Nat) : Nat :=
  Nat.count (fun i => isHINode mem (nthNode mem devicePath i) = false) n

/-- At the `n`-th node, a HI node, one of the nodes that are appended is not. -/
def AppendFailsAt (mem : Bytes) (sur : Surroundings) (devicePath n : Nat) : Prop :=
  isHINode mem (nthNode mem devicePath n) = true ∧
    ∃ k ≤ nonHINodes mem devicePath n, sur.append n k = false

/-- This happens at a node that the first walk comes to. -/
def AppendFails (mem : Bytes) (sur : Surroundings) (devicePath : Nat) : Prop :=
  ∃ n, (∀ i ≤ n, isDevicePathEnd mem (nthNode mem devicePath i) = false ∧
    devicePathNodeLength mem (nthNode mem devicePath i) ≠ 0) ∧
    AppendFailsAt mem sur devicePath n

section Append

variable {served : Nat → Bool} {nodes built : List (List UInt8)}

theorem appendNodes_served (hserved : ∀ k < nodes.length, served k = true) :
    appendNodes served 0 nodes (some built) = .ok (some (built ++ nodes)) := by
  have hfrom : ∀ (i : Nat) (nodes built : List (List UInt8)),
      (∀ k < nodes.length, served (i + k) = true) →
      appendNodes served i nodes (some built) = .ok (some (built ++ nodes)) := by
    intro i nodes
    induction nodes generalizing i with
    | nil =>
        intro built _
        rw [appendNodes, List.append_nil]
    | cons node nodes ih =>
        intro built hserved
        have hfirst : served i = true := hserved 0 (by simp)
        have hrest : ∀ k < nodes.length, served (i + 1 + k) = true := by
          intro k hk
          have hnext := hserved (k + 1) (by simpa using hk)
          rwa [Nat.add_assoc, Nat.add_comm 1 k]
        rw [appendNodes, appendNode]
        dsimp only
        rw [hfirst, if_pos rfl, ih (i + 1) _ hrest, List.append_assoc]
        rfl
  exact hfrom 0 nodes built (by simpa using hserved)

/-- Where no assertion fails, the path is lost just when the last node has not been appended. -/
theorem appendNodes_lost_iff {result : Option (List (List UInt8))} :
    appendNodes served 0 nodes (some built) = .ok result →
      (result = none ↔ ∃ k < nodes.length, served k = false) := by
  have hfrom : ∀ (i : Nat) (nodes built : List (List UInt8)),
      appendNodes served i nodes (some built) = .ok result →
        (result = none ↔ ∃ k < nodes.length, served (i + k) = false) := by
    intro i nodes
    induction nodes generalizing i with
    | nil =>
        intro built h
        cases h
        simp
    | cons node nodes ih =>
        intro built h
        rw [appendNodes, appendNode] at h
        dsimp only at h
        cases hserved : served i with
        | true =>
            rw [hserved, if_pos rfl] at h
            rw [ih (i + 1) _ h]
            constructor
            · rintro ⟨k, hk, hnot⟩
              refine ⟨k + 1, by simpa using hk, ?_⟩
              rwa [Nat.add_assoc, Nat.add_comm 1 k] at hnot
            · rintro ⟨k, hk, hnot⟩
              cases k with
              | zero =>
                  rw [Nat.add_zero, hserved] at hnot
                  cases hnot
              | succ k =>
                  refine ⟨k, by simpa using hk, ?_⟩
                  rwa [Nat.add_assoc, Nat.add_comm 1 k]
        | false =>
            rw [hserved, if_neg Bool.false_ne_true] at h
            -- another node would be appended to `NULL`
            cases nodes with
            | cons next nodes => cases h
            | nil =>
                cases h
                exact iff_of_true rfl ⟨0, by simp, hserved⟩
  intro h
  simpa using hfrom 0 nodes built h

/-- In a round that gets over its assertions there has been a path, and it is lost where a request
of the round is not served. -/
theorem HIWalk.appended_lost_iff {mem : Bytes} {append : Nat → Nat → Bool} {w : HIWalk}
    (h : (w.appended mem append).isOk = true) :
    w.hiDevicePath ≠ none ∧ ((w.appended mem append).toOption.join = none ↔
      ∃ k ≤ w.nonHIDevicePathNodeCount, append w.round k = false) := by
  cases hresult : w.appended mem append with
  | error stop =>
      rw [hresult] at h
      cases h
  | ok result =>
      rw [HIWalk.appended] at hresult
      cases hpath : w.hiDevicePath with
      | none =>
          -- the first of the nodes would be appended to `NULL`
          rw [hpath] at hresult
          cases hnodes : List.replicate w.nonHIDevicePathNodeCount endInstanceBytes ++
              [nodeBytes mem w.devicePath] with
          | nil => exact absurd hnodes (by simp)
          | cons node nodes =>
              rw [hnodes] at hresult
              cases hresult
      | some built =>
          rw [hpath] at hresult
          refine ⟨Option.some_ne_none built, ?_⟩
          have hlost := appendNodes_lost_iff hresult
          simpa [Except.toOption, Nat.lt_succ_iff] using hlost

end Append

section Walks

variable {mem : Bytes} {sur : Surroundings} {devicePath : Nat}

theorem serialStatus_eq_none {n : Nat} :
    serialStatus mem (nthNode mem devicePath n) sur.platform (sur.answer n) = none ↔
      Overruns mem sur devicePath n := by
  unfold serialStatus Overruns
  cases hfun : serialFunAt mem (nthNode mem devicePath n) with
  | iScsi =>
      cases hdecode : sur.platform.shellDecodeIScsiMapNames with
      | false => simp
      | true =>
          cases herror : (sur.answer n).isError with
          | true => simp
          | false => simp
  | _ => simp

/-- What the first walk has come to behind `n` nodes. -/
theorem hiBody_iterate (n : Nat) :
    ((hiBody mem sur.append)^[n] (hiStart devicePath)).devicePath = nthNode mem devicePath n ∧
      ((hiBody mem sur.append)^[n] (hiStart devicePath)).nonHIDevicePathNodeCount =
        nonHINodes mem devicePath n ∧
      ((hiBody mem sur.append)^[n] (hiStart devicePath)).round = n := by
  induction n with
  | zero => exact ⟨rfl, (Nat.count_zero _).symm, rfl⟩
  | succ n ih =>
      rcases ih with ⟨hpath, hcount, hround⟩
      rw [Function.iterate_succ_apply', nonHINodes, Nat.count_succ, nthNode,
        Function.iterate_succ_apply', hiBody, hpath]
      rw [nthNode] at hpath ⊢
      cases hhi : isHINode mem ((nextDevicePathNode mem)^[n] devicePath) with
      | true =>
          rw [if_pos rfl]
          refine ⟨rfl, ?_, congrArg (· + 1) hround⟩
          simpa [nonHINodes, nthNode, hhi] using hcount
      | false =>
          rw [if_neg Bool.false_ne_true]
          refine ⟨rfl, ?_, congrArg (· + 1) hround⟩
          simpa [nonHINodes, nthNode, hhi] using hcount

theorem consistBody_iterate (w : ConsistWalk) (n : Nat) :
    (consistBody mem)^[n] w = ⟨nthNode mem w.devicePath n, w.round + n⟩ := by
  induction n generalizing w with
  | zero => rfl
  | succ n ih =>
      rw [Function.iterate_succ_apply, ih]
      have hround : w.round + 1 + n = w.round + (n + 1) := by omega
      simp only [consistBody, nthNode, Function.iterate_succ_apply, hround]

/-- As long as no assertion fails, the path is lost where a node is not appended. -/
theorem hiDevicePath_eq_none_iff {n : Nat} (hbefore : ∀ i < n,
    hiAsserts mem sur.append ((hiBody mem sur.append)^[i] (hiStart devicePath)) = false) :
    ((hiBody mem sur.append)^[n] (hiStart devicePath)).hiDevicePath = none ↔
      ∃ i < n, AppendFailsAt mem sur devicePath i := by
  induction n with
  | zero => exact iff_of_false (by simp [hiStart]) (by simp)
  | succ n ih =>
      have hprefix := ih fun i hi => hbefore i (by omega)
      have hassert := hbefore n (by omega)
      rcases @hiBody_iterate mem sur devicePath n with
        ⟨hpath, hcount, hround⟩
      rw [Function.iterate_succ_apply', hiBody, hpath]
      -- the path is lost in an earlier round or in this one
      have hsplit : (∃ i < n + 1, AppendFailsAt mem sur devicePath i) ↔
          (∃ i < n, AppendFailsAt mem sur devicePath i) ∨ AppendFailsAt mem sur devicePath n := by
        rw [Nat.exists_lt_succ_right]
      rw [hsplit, ← hprefix]
      rw [hiAsserts, hpath] at hassert
      cases hhi : isHINode mem (nthNode mem devicePath n) with
      | false =>
          rw [if_neg Bool.false_ne_true]
          exact (or_iff_left fun hfails => by
            rw [AppendFailsAt, hhi] at hfails
            exact Bool.false_ne_true hfails.1).symm
      | true =>
          rw [hhi, Bool.true_and] at hassert
          have hok : (((hiBody mem sur.append)^[n] (hiStart devicePath)).appended mem
              sur.append).isOk = true := by
            simpa using hassert
          rcases HIWalk.appended_lost_iff hok with ⟨hpath', hlost⟩
          rw [if_pos rfl, or_iff_right hpath', hlost, hcount, hround, AppendFailsAt, hhi]
          exact (and_iff_right rfl).symm

/-- Where the first walk returns, at a node where it stops, and how. -/
theorem HIReturns.exists_stop (h : HIReturns mem sur devicePath) : ∃ n,
    Halts.Leads (hiStep mem sur.append) (hiStart devicePath)
        ((hiBody mem sur.append)^[n] (hiStart devicePath)) ∧
      (isDevicePathEnd mem (nthNode mem devicePath n) = true ∨
        devicePathNodeLength mem (nthNode mem devicePath n) = 0) ∧
      (∀ i < n, isDevicePathEnd mem (nthNode mem devicePath i) = false ∧
        devicePathNodeLength mem (nthNode mem devicePath i) ≠ 0) ∧
      (((hiBody mem sur.append)^[n] (hiStart devicePath)).hiDevicePath = none ↔
        AppendFails mem sur devicePath) := by
  rcases Halts.exists_iterate h with ⟨n, hleads, hstop, hbefore⟩
  have hpath : ∀ i, ((hiBody mem sur.append)^[i] (hiStart devicePath)).devicePath =
      nthNode mem devicePath i := fun i => (hiBody_iterate i).1
  have hgoes : ∀ i < n, isDevicePathEnd mem (nthNode mem devicePath i) = false ∧
      devicePathNodeLength mem (nthNode mem devicePath i) ≠ 0 := by
    intro i hi
    have hgo := (hbefore i hi).1
    rw [hiStop, hpath, Bool.or_eq_false_iff, decide_eq_false_iff_not] at hgo
    exact hgo
  rw [hiStop, hpath, Bool.or_eq_true, decide_eq_true_eq] at hstop
  refine ⟨n, hleads, hstop, hgoes, ?_⟩
  rw [hiDevicePath_eq_none_iff fun i hi => (hbefore i hi).2]
  constructor
  · rintro ⟨i, hi, hfails⟩
    exact ⟨i, fun k hk => hgoes k (by omega), hfails⟩
  · rintro ⟨i, hinside, hfails⟩
    refine ⟨i, ?_, hfails⟩
    -- the walk has stopped at node `n`
    by_contra hle
    have hn := hinside n (by omega)
    rcases hstop with hend | hzero
    · rw [hn.1] at hend
      cases hend
    · exact hn.2 hzero

theorem consistReturns_iff : ConsistReturns mem sur devicePath ↔ ∃ n,
    (isDevicePathEnd mem (nthNode mem devicePath n) = true ∨
      (serialStatus mem (nthNode mem devicePath n) sur.platform (sur.answer n)).any
        EfiStatus.isError = true) ∧
    ∀ i < n, ¬ Overruns mem sur devicePath i := by
  unfold ConsistReturns consistStep
  rw [halts_stuckAt_iff]
  simp only [consistStop, consistStuck, consistBody_iterate, ConsistWalk.status, Bool.or_eq_true,
    Nat.zero_add, Option.isNone_eq_false_iff, ← serialStatus_eq_none, Option.isSome_iff_ne_none]

/-- A node of length 0 is followed by itself. -/
theorem nthNode_of_length_zero {n k : Nat}
    (h : devicePathNodeLength mem (nthNode mem devicePath n) = 0) (hk : n ≤ k) :
    nthNode mem devicePath k = nthNode mem devicePath n := by
  have hfixed : nextDevicePathNode mem (nthNode mem devicePath n) = nthNode mem devicePath n := by
    rw [nextDevicePathNode, h, Nat.add_zero]
  have hsplit : k = (k - n) + n := by omega
  rw [hsplit, nthNode, Function.iterate_add_apply]
  exact Function.iterate_fixed hfixed (k - n)

/-- On a path where the first walk stops, the end node is reached just when every node before it
has a length. -/
theorem exists_end_iff_advances (h : HIReturns mem sur devicePath) :
    (∃ n, isDevicePathEnd mem (nthNode mem devicePath n) = true) ↔ Advances mem devicePath := by
  constructor
  · rintro ⟨n, hn⟩ m hinside hzero
    -- from a node of length 0 on, there is no other
    have hm : isDevicePathEnd mem (nthNode mem devicePath m) = false := hinside m (Nat.le_refl m)
    rcases Nat.le_total n m with hle | hle
    · rw [hinside n hle] at hn
      cases hn
    · rw [nthNode_of_length_zero hzero hle, hm] at hn
      cases hn
  · intro hadvances
    rcases h.exists_stop with ⟨n, -, hend | hzero, -⟩
    · exact ⟨n, hend⟩
    · by_contra hnone
      have hinside : Inside mem devicePath n := fun i _ => by
        by_contra hi
        exact hnone ⟨i, by simpa using hi⟩
      exact hadvances n hinside hzero

theorem consistReturns_iff_advances (h : HIReturns mem sur devicePath) :
    ConsistReturns mem sur devicePath ↔
      (Advances mem devicePath ∧ ∀ n, Inside mem devicePath n → ¬ Overruns mem sur devicePath n) ∨
        SerialFunFails mem sur devicePath := by
  have hatEnd : ∀ n, isDevicePathEnd mem (nthNode mem devicePath n) = true →
      (∀ i < n, ¬ Overruns mem sur devicePath i) →
      ∀ m, Inside mem devicePath m → ¬ Overruns mem sur devicePath m := by
    intro n hend hbefore m hinside
    refine hbefore m ?_
    by_contra hle
    rw [hinside n (by omega)] at hend
    cases hend
  rw [consistReturns_iff, ← exists_end_iff_advances h]
  constructor
  · rintro ⟨n, hend | herror, hbefore⟩
    · exact .inl ⟨⟨n, hend⟩, hatEnd n hend hbefore⟩
    · by_cases hinside : Inside mem devicePath n
      · exact .inr ⟨n, hinside, herror, hbefore⟩
      · -- the walk has stopped at the end node before it gets to the error
        simp only [Inside, not_forall, Bool.not_eq_false] at hinside
        rcases hinside with ⟨i, hi, hend⟩
        exact .inl ⟨⟨i, hend⟩, hatEnd i hend fun j hj => hbefore j (by omega)⟩
  · rintro (⟨hend, hnone⟩ | ⟨n, -, herror, hbefore⟩)
    · -- the first end node
      refine ⟨Nat.find hend, .inl (Nat.find_spec hend), fun i hi => hnone i fun j hj => ?_⟩
      simpa using Nat.find_min hend (show j < Nat.find hend by omega)
    · exact ⟨n, .inr herror, hbefore⟩

/-! ## The name -/

/-- Behind the first walk there is the second one, if there is a path and it is in the table. -/
theorem nameReturns_iff (h : HIReturns mem sur devicePath) :
    NameReturns mem sur devicePath ↔
      AppendFails mem sur devicePath ∨ ConsistReturns mem sur devicePath := by
  have hsecond : ∀ inTable w,
      Halts (nameStep mem sur inTable devicePath) (.consist w) ↔ Halts (consistStep mem sur) w :=
    fun inTable w => Halts.map_iff (f := NameWalk.consist) (fun _ => rfl) w
  rcases h.exists_stop with ⟨n, hleads, hstop, -, hlost⟩
  generalize hw : (hiBody mem sur.append)^[n] (hiStart devicePath) = w at hleads hlost
  have hpath : w.devicePath = nthNode mem devicePath n := by
    rw [← hw]
    exact (hiBody_iterate n).1
  have hnone : hiStep mem sur.append w = none := by
    refine whileNot_of_stop ?_
    simpa [hiStop, hpath] using hstop
  have hfirst : ∀ inTable, Halts.Leads (nameStep mem sur inTable devicePath)
      (.hi (hiStart devicePath)) (.hi w) := by
    intro inTable
    refine hleads.map fun s t hst => ?_
    simp only [nameStep, hst]
  rw [← hlost]
  cases hbuilt : w.hiDevicePath with
  | none =>
      refine iff_of_true (fun inTable => ?_) (.inl rfl)
      rw [Halts.of_leads (hfirst inTable)]
      refine .stop ?_
      simp only [nameStep, hnone, hbuilt]
  | some nodes =>
      have hthen : ∀ inTable, nameStep mem sur inTable devicePath (.hi w) =
          if inTable nodes then some (.consist ⟨devicePath, 0⟩) else none := by
        intro inTable
        simp only [nameStep, hnone, hbuilt]
      rw [or_iff_right (Option.some_ne_none nodes)]
      constructor
      · intro hall
        -- a table that has every path
        have hfound := (Halts.of_leads (hfirst fun _ => true)).mp (hall fun _ => true)
        rw [Halts.iff_of_next (hthen fun _ => true)] at hfound
        exact (hsecond _ _).mp hfound
      · intro hconsist inTable
        rw [Halts.of_leads (hfirst inTable)]
        have hnext := hthen inTable
        cases htable : inTable nodes with
        | true =>
            rw [htable] at hnext
            rw [Halts.iff_of_next hnext]
            exact (hsecond _ _).mpr hconsist
        | false =>
            rw [htable] at hnext
            exact .stop hnext

/-- On the buffers where the first walk stops, the name is made or given up just when the first walk
has lost its path, when the nodes before the end node all have a length and no serialiser copies a
name of negative length, or when a serialiser fails before one does. -/
theorem returns_iff_advances (mem : Bytes) (sur : Surroundings) (devicePath : Nat)
    (h : HIReturns mem sur devicePath) :
    NameReturns mem sur devicePath ↔
      AppendFails mem sur devicePath ∨
        (Advances mem devicePath ∧
          ∀ n, Inside mem devicePath n → ¬ Overruns mem sur devicePath n) ∨
        SerialFunFails mem sur devicePath :=
  (nameReturns_iff h).trans (or_congr_right (consistReturns_iff_advances h))

end Walks

/-- A buffer; what is behind it reads as zero. -/
def bufferOf (bytes : List UInt8) : Bytes := fun p => bytes.getD p 0

/-- A PCI node in front of the end node. -/
def pciBuffer : Bytes := bufferOf [0x01, 0x01, 6, 0, 0, 0x1f, 0x7f, 0xff, 4, 0]

/-- No extended decoding, no USB device, and every request is served. -/
def plainSurroundings : Surroundings :=
  ⟨⟨false, 0, false, fun _ => none⟩, fun _ => .success, fun _ _ => true⟩

/-- The same, with the names of iSCSI targets decoded. -/
def decodingSurroundings : Surroundings :=
  ⟨⟨false, 0, true, fun _ => none⟩, fun _ => .success, fun _ _ => true⟩

/-- An iSCSI node that lacks the last byte of its fields. -/
def shortIScsi : Bytes :=
  bufferOf ([0x03, 0x13, 17, 0] ++ List.replicate 13 0 ++ [0x7f, 0xff, 4, 0])

/-- The PCI node gets its name; the copy of the iSCSI target's name does not come to an end. -/
theorem pciBuffer_returns : NameReturns pciBuffer plainSurroundings 0 ∧
    ¬ NameReturns shortIScsi decodingSurroundings 0 := by
  have hpci : HIReturns pciBuffer plainSurroundings 0 := .step rfl (.stop rfl)
  have hiScsi : HIReturns shortIScsi decodingSurroundings 0 := .step rfl (.stop rfl)
  constructor
  · refine (returns_iff_advances pciBuffer plainSurroundings 0 hpci).mpr (.inr (.inl ⟨?_, ?_⟩))
    · intro n hinside
      cases n with
      | zero => decide
      | succ n =>
          -- the second node is the end node
          have hsecond := hinside 1 (by omega)
          cases hsecond
    · rintro n - ⟨-, hdecode, -⟩
      cases hdecode
  · intro hname
    have hoverruns : Overruns shortIScsi decodingSurroundings 0 0 := ⟨rfl, rfl, rfl, by decide⟩
    rcases (returns_iff_advances shortIScsi decodingSurroundings 0 hiScsi).mp hname with
      ⟨n, -, -, k, -, hserved⟩ | ⟨-, hnone⟩ | ⟨n, -, herror, hbefore⟩
    · cases hserved
    · refine hnone 0 (fun i hi => ?_) hoverruns
      rw [Nat.le_zero.mp hi]
      rfl
    · cases n with
      | zero =>
          rw [serialStatus_eq_none.mpr hoverruns] at herror
          cases herror
      | succ n => exact hbefore 0 (by omega) hoverruns

/-- The same with a length of 0 in the PCI node. -/
def stuckBuffer : Bytes := bufferOf [0x01, 0x01, 0, 0, 0, 0x1f, 0x7f, 0xff, 4, 0]

/-- The first walk stops at this node, the second one stays there. -/
theorem stuckBuffer_walked_forever :
    HIReturns stuckBuffer plainSurroundings 0 ∧ ¬ NameReturns stuckBuffer plainSurroundings 0 := by
  have hreturns : HIReturns stuckBuffer plainSurroundings 0 := .stop rfl
  refine ⟨hreturns, ?_⟩
  rw [nameReturns_iff hreturns, consistReturns_iff]
  rintro (⟨n, -, -, k, -, hserved⟩ | ⟨n, h, -⟩)
  · cases hserved
  -- in every round it is the same node, and its serialiser succeeds
  have hthere : nthNode stuckBuffer 0 n = 0 :=
    nthNode_of_length_zero (n := 0) rfl (Nat.zero_le n)
  rw [hthere] at h
  rcases h with hend | herror
  · cases hend
  · cases herror

/-! ## Well-formed paths -/

/-- The bytes of a node with its header. -/
def DevicePathNode.encode (node : DevicePathNode) : List UInt8 :=
  [node.type, node.subType, UInt8.ofNat (node.length % 256), UInt8.ofNat (node.length / 256)] ++
    node.data

/-- A path in memory. -/
def Stored (mem : Bytes) : Nat → DevicePath → Prop
  | p, [] => isDevicePathEnd mem p = true
  | p, node :: nodes =>
      (∀ i < node.length, node.encode[i]? = some (mem (p + i))) ∧
        Stored mem (p + node.length) nodes

section Stored

variable {mem : Bytes} {p : Nat} {node : DevicePathNode} {nodes : List DevicePathNode}

theorem Stored.header (h : Stored mem p (node :: nodes)) :
    mem p = node.type ∧ mem (p + 1) = node.subType ∧
      mem (p + 2) = UInt8.ofNat (node.length % 256) ∧
      mem (p + 3) = UInt8.ofNat (node.length / 256) := by
  have hlength : 4 ≤ node.length := Nat.le_add_right 4 _
  have hbyte : ∀ i < 4, node.encode[i]? = some (mem (p + i)) := fun i hi => h.1 i (by omega)
  refine ⟨?_, ?_, ?_, ?_⟩
  · exact (Option.some.inj (hbyte 0 (by omega))).symm
  · exact (Option.some.inj (hbyte 1 (by omega))).symm
  · exact (Option.some.inj (hbyte 2 (by omega))).symm
  · exact (Option.some.inj (hbyte 3 (by omega))).symm

theorem Stored.data (h : Stored mem p (node :: nodes)) {i : Nat} (hi : i < node.data.length) :
    node.data[i]? = some (mem (p + 4 + i)) := by
  have hbyte := h.1 (4 + i) (by unfold DevicePathNode.length; omega)
  rw [Nat.add_assoc, ← hbyte, DevicePathNode.encode, List.getElem?_append_right (by simp)]
  simp

theorem Stored.not_end (h : Stored mem p (node :: nodes)) (hwf : node.Wf) :
    isDevicePathEnd mem p = false := by
  rcases h.header with ⟨htype, hsubType, -, -⟩
  rw [isDevicePathEnd, htype, hsubType]
  simpa using hwf.1

theorem Stored.nodeLength (h : Stored mem p (node :: nodes)) (hwf : node.Wf) :
    devicePathNodeLength mem p = node.length := by
  rcases h.header with ⟨-, -, hlow, hhigh⟩
  have hlt : node.length < 2 ^ 16 := hwf.2.1
  rw [devicePathNodeLength, hlow, hhigh, UInt8.toNat_ofNat', UInt8.toNat_ofNat']
  omega

theorem Stored.nodeBytes (h : Stored mem p (node :: nodes)) (hwf : node.Wf) :
    nodeBytes mem p = node.encode := by
  rw [Mapping.nodeBytes, h.nodeLength hwf]
  refine List.ext_getElem? fun i => ?_
  by_cases hi : i < node.length
  · rw [h.1 i hi]
    simp [hi]
  · have hlength : node.encode.length = node.length := by
      simp only [DevicePathNode.encode, DevicePathNode.length, List.length_append,
        List.length_cons, List.length_nil]
    rw [List.getElem?_eq_none (by simpa using hi), List.getElem?_eq_none (by omega)]

theorem Stored.serialFun (h : Stored mem p (node :: nodes)) :
    serialFunAt mem p = node.serialiser := by
  rcases h.header with ⟨htype, hsubType, -, -⟩
  rw [serialFunAt, htype, hsubType]
  rfl

/-- The upper half of the first field of four bytes. -/
theorem DevicePathNode.eisaNum_eq {b₀ b₁ b₂ b₃ : UInt8} {rest : List UInt8}
    (h : node.data = b₀ :: b₁ :: b₂ :: b₃ :: rest) :
    node.eisaNum = b₂.toNat + 256 * b₃.toNat := by
  have h₀ := b₀.toNat_lt
  have h₁ := b₁.toNat_lt
  have h₂ := b₂.toNat_lt
  have h₃ := b₃.toNat_lt
  simp only [DevicePathNode.eisaNum, DevicePathNode.field, h, List.drop_zero, List.take_succ_cons,
    List.take_zero, List.foldr_cons, List.foldr_nil, UInt64.toNat_ofNat']
  omega

theorem Stored.isHINode (h : Stored mem p (node :: nodes)) (hwf : node.Wf) :
    isHINode mem p = isHIDevicePathNode node := by
  rcases h.header with ⟨htype, -, -, -⟩
  rw [Mapping.isHINode, isHIDevicePathNode, htype]
  by_cases hacpi : node.type = 0x02
  · -- the four bytes of the number are there
    have hsize : 4 ≤ node.data.length := hwf.2.2.2.1 hacpi
    have h₂ := h.data (i := 2) (by omega)
    have h₃ := h.data (i := 3) (by omega)
    match hdata : node.data, hsize with
    | b₀ :: b₁ :: b₂ :: b₃ :: rest, _ =>
        rw [hdata] at h₂ h₃
        rw [DevicePathNode.eisaNum_eq hdata, Option.some.inj h₂, Option.some.inj h₃]
  · simp only [hacpi, if_false]

/-- A well-formed iSCSI node has all its fields. -/
theorem Stored.iScsi_length (h : Stored mem p (node :: nodes)) (hwf : node.Wf)
    (hiScsi : node.serialiser = .iScsi) : ¬ devicePathNodeLength mem p < sizeofISCSIDevicePath := by
  have hsize := hwf.2.2.1
  rw [hiScsi] at hsize
  rw [h.nodeLength hwf, DevicePathNode.length, sizeofISCSIDevicePath]
  have hmin : Serialiser.iScsi.minSize = 14 := rfl
  omega

/-- The serialiser of a well-formed node returns. -/
theorem Stored.serialStatus_ok (h : Stored mem p (node :: nodes)) (hwf : node.Wf)
    {platform : Platform} {path : DevicePath} {answer : EfiStatus}
    (hanswer : answer.isError = lookupFails platform path node) :
    ∃ status, serialStatus mem p platform answer = some status ∧
      status.isError = lookupFails platform path node := by
  by_cases husb : node.serialiser = .usb
  · refine ⟨answer, ?_, hanswer⟩
    rw [serialStatus, h.serialFun, husb]
  · have hfound : lookupFails platform path node = false := by simp [lookupFails, husb]
    have hsuccess : answer = .success := by
      rw [hfound] at hanswer
      simpa [EfiStatus.isError] using hanswer
    refine ⟨.success, ?_, by rw [hfound]; rfl⟩
    rw [serialStatus, h.serialFun, hsuccess]
    cases hfun : node.serialiser with
    | iScsi => simp [h.iScsi_length hwf hfun]
    | acpi => simp
    | _ => rfl

/-- The first walk hands the nodes of `getHIDevicePath` to `AppendDevicePathNode`. -/
theorem hiWalk_stored {append : Nat → Nat → Bool} (hserved : ∀ n k, append n k = true)
    {path : DevicePath} (hwf : WellFormed path) (h : Stored mem p path) (count : Nat)
    (built : List (List UInt8)) (round : Nat) :
    ∃ w, Halts.Leads (hiStep mem append) ⟨p, count, some built, round⟩ w ∧
      hiStep mem append w = none ∧
      w.hiDevicePath = some (built ++ (hiNodes count path).map DevicePathNode.encode) := by
  induction path generalizing p count built round with
  | nil =>
      have hend : isDevicePathEnd mem p = true := h
      refine ⟨⟨p, count, some built, round⟩, .refl _, whileNot_of_stop ?_, ?_⟩
      · simp [hiStop, hend]
      · simp [hiNodes]
  | cons node nodes ih =>
      have hnode : node.Wf := hwf node List.mem_cons_self
      have hnext : nextDevicePathNode mem p = p + node.length := by
        rw [nextDevicePathNode, h.nodeLength hnode]
      have happended : HIWalk.appended mem append ⟨p, count, some built, round⟩ =
          .ok (some (built ++ (List.replicate count endInstanceBytes ++ [node.encode]))) := by
        rw [HIWalk.appended, h.nodeBytes hnode]
        exact appendNodes_served fun k _ => hserved round k
      have hgo : hiStep mem append ⟨p, count, some built, round⟩ =
          some (hiBody mem append ⟨p, count, some built, round⟩) := by
        have hgoes : hiStop mem ⟨p, count, some built, round⟩ = false := by
          have hlength : node.length ≠ 0 := by simp [DevicePathNode.length]
          simp [hiStop, h.not_end hnode, h.nodeLength hnode, hlength]
        have hasserts : hiAsserts mem append ⟨p, count, some built, round⟩ = false := by
          rw [hiAsserts, happended]
          simp [Except.isOk, Except.toBool]
        rw [hiStep, whileNot_of_not_stop hgoes, stuckAt, if_neg (by simp [hasserts])]
      have hrest : WellFormed nodes := fun n hn => hwf n (List.mem_cons_of_mem node hn)
      cases hhi : isHIDevicePathNode node with
      | true =>
          rcases ih hrest h.2 count
              (built ++ (List.replicate count endInstanceBytes ++ [node.encode])) (round + 1) with
            ⟨w, hleads, hnone, hbuilt⟩
          have hbody : hiBody mem append ⟨p, count, some built, round⟩ =
              ⟨p + node.length, count,
                some (built ++ (List.replicate count endInstanceBytes ++ [node.encode])),
                round + 1⟩ := by
            simp only [hiBody, h.isHINode hnode, hhi, if_true, hnext, happended]
            rfl
          refine ⟨w, .step (hgo.trans (congrArg some hbody)) hleads, hnone, ?_⟩
          have hinstance : endInstanceNode.encode = endInstanceBytes := rfl
          rw [hbuilt, hiNodes, if_pos hhi, List.map_append, List.map_replicate, hinstance]
          simp only [List.map_cons, List.append_assoc, List.singleton_append]
      | false =>
          -- a node that is not hardware is counted: the next one that is gets an end node for it
          rcases ih hrest h.2 (count + 1) built (round + 1) with ⟨w, hleads, hnone, hbuilt⟩
          have hbody : hiBody mem append ⟨p, count, some built, round⟩ =
              ⟨p + node.length, count + 1, some built, round + 1⟩ := by
            simp only [hiBody, h.isHINode hnode, hhi, hnext, Bool.false_eq_true, if_false]
          refine ⟨w, .step (hgo.trans (congrArg some hbody)) hleads, hnone, ?_⟩
          rw [hbuilt, hiNodes, if_neg (by simp [hhi])]

/-- Where every request is served and only the look-up of a USB interface may fail, the second walk
returns an error just when `serialiseFrom` does. -/
theorem consistWalk_stored {sur : Surroundings} {path whole : DevicePath} (stack : Stack)
    (hwf : WellFormed path) (h : Stored mem p path) (round : Nat) (info : MappingInfo)
    (hanswer : ∀ i node, path[i]? = some node →
      (sur.answer (round + i)).isError = lookupFails sur.platform whole node) :
    ∃ w, Halts.Leads (consistStep mem sur) ⟨p, round⟩ w ∧ consistStep mem sur w = none ∧
      (w.result mem sur).isError =
        (serialiseFrom sur.platform stack whole round path info).isNone := by
  induction path generalizing p round info with
  | nil =>
      have hend : isDevicePathEnd mem p = true := h
      refine ⟨⟨p, round⟩, .refl _, whileNot_of_stop (by simp [consistStop, hend]), ?_⟩
      simp [ConsistWalk.result, hend, serialiseFrom, EfiStatus.isError]
  | cons node nodes ih =>
      have hnode : node.Wf := hwf node List.mem_cons_self
      rcases h.serialStatus_ok hnode (hanswer 0 node rfl) with ⟨status, hreturned, hstatus⟩
      have hround : (⟨p, round⟩ : ConsistWalk).status mem sur = some status := hreturned
      rw [serialiseFrom, Serialiser.run_eq]
      cases hfails : lookupFails sur.platform whole node with
      | true =>
          -- the lookup fails: both sides stop here with an error
          rw [hfails] at hstatus
          refine ⟨⟨p, round⟩, .refl _, whileNot_of_stop ?_, ?_⟩
          · simp [consistStop, hround, hstatus]
          · simp only [ConsistWalk.result, h.not_end hnode, Bool.false_eq_true, if_false, if_true,
              hround, Option.getD_some, hstatus, Option.isNone_none]
      | false =>
          rw [hfails] at hstatus
          have hgo : consistStep mem sur ⟨p, round⟩ = some ⟨p + node.length, round + 1⟩ := by
            have hnext : consistBody mem ⟨p, round⟩ = ⟨p + node.length, round + 1⟩ := by
              simp only [consistBody, nextDevicePathNode, h.nodeLength hnode]
            have hgoes : consistStop mem sur ⟨p, round⟩ = false := by
              simp [consistStop, hround, hstatus, h.not_end hnode]
            rw [consistStep, whileNot_of_not_stop hgoes, stuckAt,
              if_neg (by simp [consistStuck, hround]), hnext]
          rcases ih (fun n hn => hwf n (List.mem_cons_of_mem node hn)) h.2 (round + 1) _
              (fun i n hn => by
                have hi := hanswer (i + 1) n hn
                have hround : round + (i + 1) = round + 1 + i := by omega
                rwa [hround] at hi) with ⟨w, hleads, hnone, hresult⟩
          exact ⟨w, .step hgo hleads, hnone, hresult⟩

theorem Stored.nthNode_succ (h : Stored mem p (node :: nodes)) (hwf : node.Wf) (n : Nat) :
    nthNode mem p (n + 1) = nthNode mem (p + node.length) n := by
  rw [nthNode, Function.iterate_succ_apply, nextDevicePathNode, h.nodeLength hwf, nthNode]

/-- In front of the end node there are the nodes of the path. -/
theorem Stored.node_of_inside {path : DevicePath} (hwf : WellFormed path) (h : Stored mem p path)
    {n : Nat} (hinside : Inside mem p n) :
    ∃ node nodes, node.Wf ∧ Stored mem (nthNode mem p n) (node :: nodes) := by
  induction path generalizing p n with
  | nil =>
      have hend : isDevicePathEnd mem p = true := h
      have hfirst : isDevicePathEnd mem p = false := hinside 0 (Nat.zero_le n)
      rw [hend] at hfirst
      cases hfirst
  | cons node nodes ih =>
      have hnode : node.Wf := hwf node List.mem_cons_self
      cases n with
      | zero => exact ⟨node, nodes, hnode, h⟩
      | succ n =>
          rw [h.nthNode_succ hnode]
          refine ih (fun n hn => hwf n (List.mem_cons_of_mem node hn)) h.2 fun i hi => ?_
          rw [← h.nthNode_succ hnode]
          exact hinside (i + 1) (by omega)

/-- The name of a well-formed path is made or given up, whatever is answered, once the first walk
has returned. -/
theorem nameReturns_stored {path : DevicePath} (hwf : WellFormed path) (h : Stored mem p path)
    {sur : Surroundings} (hreturns : HIReturns mem sur p) : NameReturns mem sur p := by
  rw [nameReturns_iff hreturns, consistReturns_iff_advances hreturns]
  refine .inr (.inl ⟨?_, ?_⟩)
  · intro n hinside
    rcases h.node_of_inside hwf hinside with ⟨node, nodes, hnode, hstored⟩
    rw [hstored.nodeLength hnode, DevicePathNode.length]
    omega
  · rintro n hinside ⟨hiScsi, -, -, hshort⟩
    rcases h.node_of_inside hwf hinside with ⟨node, nodes, hnode, hstored⟩
    rw [hstored.serialFun] at hiScsi
    exact hstored.iScsi_length hnode hiScsi hshort

end Stored

end EfiLvgl.Mapping
