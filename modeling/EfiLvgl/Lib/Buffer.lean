import Mathlib.Data.List.Basic

/-!
# EfiLvgl.Lib.Buffer — buffers that are filled from the front

A buffer of a fixed number of places, which nothing has been written to at first. A write behind
its end is not forgotten: it is an overrun. Writing to the places one after the other fills the
buffer (`put_filled`, `putAll_filled`). Nothing here names a particular program.
-/

namespace EfiLvgl

/-- A buffer. A place that nothing was written to is `none`. -/
structure Buffer (α : Type) where
  places : List (Option α)
  overrun : Bool
deriving DecidableEq, Repr

namespace Buffer

variable {α : Type}

/-- A new buffer of `n` places. -/
def new (n : Nat) : Buffer α := ⟨List.replicate n none, false⟩

def put (b : Buffer α) (i : Nat) (x : α) : Buffer α :=
  if i < b.places.length then { b with places := b.places.set i (some x) }
  else { b with overrun := true }

/-- Writes to one place after the other, from `i` on. -/
def putAll (b : Buffer α) (i : Nat) : List α → Buffer α
  | [] => b
  | x :: xs => putAll (b.put i x) (i + 1) xs

/-- A buffer of `n` places, of which the first hold `xs`. -/
def filled (n : Nat) (xs : List α) : Buffer α :=
  ⟨xs.map some ++ List.replicate (n - xs.length) none, false⟩

theorem new_eq_filled (n : Nat) : (new n : Buffer α) = filled n [] := rfl

/-- The next place is written to. -/
theorem put_filled {n i : Nat} {l : List α} (hi : l.length = i) (hn : i < n) (x : α) :
    (filled n l).put i x = filled n (l ++ [x]) := by
  have hrest : n - i = (n - (i + 1)) + 1 := by omega
  unfold filled put
  subst hi
  rw [if_pos (by simp; omega)]
  simp [hrest, List.replicate_succ]

theorem putAll_filled {n i : Nat} {xs : List α} (hi : xs.length = i) (ys : List α)
    (hn : i + ys.length ≤ n) : (filled n xs).putAll i ys = filled n (xs ++ ys) := by
  induction ys generalizing xs i with
  | nil => rw [putAll, List.append_nil]
  | cons y ys ih =>
      rw [List.length_cons] at hn
      have hlen : (xs ++ [y]).length = i + 1 := by rw [List.length_append, hi]; rfl
      rw [putAll, put_filled hi (by omega), ih hlen (by omega), List.append_assoc,
        List.singleton_append]

/-- All places but the last are written to, and then that one. -/
theorem filled_all_succ (xs : List α) (x : α) :
    filled (xs.length + 1) (xs ++ [x]) = ⟨(xs ++ [x]).map some, false⟩ := by
  simp [filled]

theorem length_put (b : Buffer α) (i : Nat) (x : α) :
    (b.put i x).places.length = b.places.length := by
  unfold put
  split
  · exact List.length_set
  · rfl

theorem overrun_put (b : Buffer α) (i : Nat) (x : α) :
    (b.put i x).overrun = (b.overrun || decide (b.places.length ≤ i)) := by
  unfold put
  split
  · rename_i h
    rw [decide_eq_false (by omega), Bool.or_false]
  · rename_i h
    rw [decide_eq_true (by omega), Bool.or_true]

theorem length_putAll (b : Buffer α) (i : Nat) (xs : List α) :
    (b.putAll i xs).places.length = b.places.length := by
  induction xs generalizing b i with
  | nil => rfl
  | cons x xs ih => rw [putAll, ih, length_put]

/-- Writing beyond the end is an overrun. -/
theorem overrun_putAll {b : Buffer α} {i : Nat} (xs : List α) :
    (b.putAll i xs).overrun = true ↔
      b.overrun = true ∨ b.places.length < i + xs.length ∧ xs ≠ [] := by
  induction xs generalizing b i with
  | nil => simp [putAll]
  | cons x xs ih =>
      rw [putAll, ih, overrun_put, length_put, Bool.or_eq_true, decide_eq_true_iff,
        List.length_cons]
      constructor
      · rintro ((h | h) | ⟨h, -⟩)
        · exact .inl h
        · exact .inr ⟨by omega, by simp⟩
        · exact .inr ⟨by omega, by simp⟩
      · rintro (h | ⟨h, -⟩)
        · exact .inl (.inl h)
        · cases xs with
          | nil => exact .inl (.inr (by simpa [Nat.lt_succ_iff] using h))
          | cons y ys => exact .inr ⟨by omega, by simp⟩

@[simp] theorem length_filled {n : Nat} {l : List α} (h : l.length ≤ n) :
    (filled n l).places.length = n := by
  simp [filled, h]

theorem take_filled (n : Nat) (l : List α) : (filled n l).places.take l.length = l.map some := by
  simp [filled, List.take_left']

/-! ## What a buffer starts with -/

/-- A buffer of `n` places, of which the first hold `xs`; the others may hold anything. -/
structure Starts (b : Buffer α) (n : Nat) (xs : List α) : Prop where
  size : b.places.length = n
  safe : b.overrun = false
  holds : b.places.take xs.length = xs.map some

theorem starts_nil {b : Buffer α} {n : Nat} (hsize : b.places.length = n)
    (hsafe : b.overrun = false) : b.Starts n [] :=
  ⟨hsize, hsafe, rfl⟩

theorem put_safe {b : Buffer α} {i : Nat} (hsafe : b.overrun = false) (hi : i < b.places.length)
    (x : α) : (b.put i x).overrun = false := by
  rw [overrun_put, hsafe, decide_eq_false (Nat.not_le_of_lt hi), Bool.or_false]

/-- The next place is written to. -/
theorem Starts.append {b : Buffer α} {n : Nat} {xs : List α} (h : b.Starts n xs)
    (hroom : xs.length < n) (x : α) : (b.put xs.length x).Starts n (xs ++ [x]) := by
  have hlt : xs.length < b.places.length := by
    rw [h.size]
    exact hroom
  refine ⟨?_, put_safe h.safe hlt x, ?_⟩
  · rw [length_put]
    exact h.size
  · -- the places in front are not written to
    have hput : (b.put xs.length x).places = b.places.set xs.length (some x) := by
      rw [put, if_pos hlt]
    rw [hput, List.length_append, List.length_singleton,
      List.take_succ_eq_append_getElem (by rw [List.length_set]; exact hlt),
      List.take_set_of_le (Nat.le_refl _), List.getElem_set_self, h.holds, List.map_append]
    rfl

/-- The last place is written over, and given up. -/
theorem Starts.dropLast {b : Buffer α} {n : Nat} {xs : List α} (h : b.Starts n xs)
    (hroom : xs.length - 1 < n) (x : α) : (b.put (xs.length - 1) x).Starts n xs.dropLast := by
  have hlt : xs.length - 1 < b.places.length := by
    rw [h.size]
    exact hroom
  refine ⟨?_, put_safe h.safe hlt x, ?_⟩
  · rw [length_put]
    exact h.size
  · -- what is written is behind all that is still held
    have hput : (b.put (xs.length - 1) x).places = b.places.set (xs.length - 1) (some x) := by
      rw [put, if_pos hlt]
    have htake : b.places.take (xs.length - 1) = (b.places.take xs.length).take (xs.length - 1) := by
      rw [List.take_take, Nat.min_eq_left (Nat.sub_le _ _)]
    rw [hput, List.length_dropLast, List.take_set_of_le (Nat.le_refl _), htake, h.holds,
      List.dropLast_eq_take, List.map_take]

theorem Starts.putAll {b : Buffer α} {n : Nat} (h : b.Starts n []) (xs : List α)
    (hroom : xs.length ≤ n) : (b.putAll 0 xs).Starts n [] := by
  have hsafe : (b.putAll 0 xs).overrun ≠ true := by
    rw [Ne, overrun_putAll, h.safe, h.size]
    rintro (hover | ⟨hover, -⟩)
    · cases hover
    · omega
  exact starts_nil ((length_putAll b 0 xs).trans h.size) (Bool.eq_false_iff.mpr hsafe)

/-! ## Groups of elements -/

section Gather

variable {ε : Type}

/-- Groups are written to the buffer from place `j` on, as long as `j` is below `n`; one that
could not be made ends it. -/
def gather (n : Nat) : Buffer α → Nat → List (Except ε (List α)) → Buffer α × Except ε Nat
  | b, j, [] => (b, .ok j)
  | b, j, group :: groups =>
      if n ≤ j then (b, .ok j)
      else
        match group with
        | .error e => (b, .error e)
        | .ok xs => gather n (b.putAll j xs) (j + xs.length) groups

/-- Groups that fit are all written. -/
theorem gather_map_ok {n : Nat} {l : List α} (xss : List (List α)) (hne : ∀ xs ∈ xss, xs ≠ [])
    (hle : l.length + xss.flatten.length ≤ n) (groups : List (Except ε (List α))) :
    gather n (filled n l) l.length (xss.map .ok ++ groups) =
      gather n (filled n (l ++ xss.flatten)) (l ++ xss.flatten).length groups := by
  induction xss generalizing l with
  | nil => simp
  | cons xs xss ih =>
      rw [List.forall_mem_cons] at hne
      have hpos := List.length_pos_iff.mpr hne.1
      rw [List.flatten_cons, List.length_append] at hle
      have hlen : l.length + xs.length = (l ++ xs).length := List.length_append.symm
      rw [List.map_cons, List.cons_append, gather, if_neg (by omega)]
      rw [putAll_filled rfl xs (by omega), hlen, ih hne.2 (by omega), List.flatten_cons,
        List.append_assoc]

/-- Groups that were made are among all those at the front that were. -/
theorem made_prefix {xss yss : List (List α)} {groups tail : List (Except ε (List α))}
    (htail : ∀ xs rest, tail ≠ .ok xs :: rest)
    (h : xss.map .ok ++ groups = yss.map .ok ++ tail) :
    ∃ zss, yss = xss ++ zss ∧ groups = zss.map .ok ++ tail := by
  induction xss generalizing yss with
  | nil => exact ⟨yss, rfl, h⟩
  | cons xs xss ih =>
      cases yss with
      -- the tail does not begin with a group that was made
      | nil => exact absurd h.symm (htail xs _)
      | cons ys yss =>
          rcases List.cons.inj h with ⟨hhead, hrest⟩
          cases hhead
          rcases ih hrest with ⟨zss, rfl, hgroups⟩
          exact ⟨zss, rfl, hgroups⟩

/-- What becomes of groups: all are written; or they are up to the first that could not be made;
or the buffer is full although there are more of them; or one runs over its end. -/
theorem gather_cases {n k : Nat} (groups : List (Except ε (List α))) (hk : k ≤ n) :
    (∃ xss : List (List α), groups = xss.map .ok ∧ k + xss.flatten.length ≤ n) ∨
      (∃ (xss : List (List α)) (e : ε) (rest : List (Except ε (List α))),
        groups = xss.map .ok ++ .error e :: rest ∧ k + xss.flatten.length < n) ∨
      (∃ (xss : List (List α)) (group : Except ε (List α)) (rest : List (Except ε (List α))),
        groups = xss.map .ok ++ group :: rest ∧ k + xss.flatten.length = n) ∨
      ∃ (xss : List (List α)) (xs : List α) (rest : List (Except ε (List α))),
        groups = xss.map .ok ++ .ok xs :: rest ∧ k + xss.flatten.length < n ∧
          n < k + xss.flatten.length + xs.length := by
  induction groups generalizing k with
  | nil => exact .inl ⟨[], rfl, hk⟩
  | cons group groups ih =>
      -- what ends it is asked in the order of the loop: room, error, length
      rcases Nat.eq_or_lt_of_le hk with hfull | hroom
      · exact .inr (.inr (.inl ⟨[], group, groups, rfl, hfull⟩))
      · cases group with
        | error e => exact .inr (.inl ⟨[], e, groups, rfl, hroom⟩)
        | ok xs =>
            rcases Nat.lt_or_ge n (k + xs.length) with hover | hfits
            · exact .inr (.inr (.inr ⟨[], xs, groups, rfl, hroom, hover⟩))
            · have hlen : ∀ xss : List (List α), k + (xs :: xss).flatten.length =
                  k + xs.length + xss.flatten.length := by
                intro xss
                rw [List.flatten_cons, List.length_append, Nat.add_assoc]
              rcases ih hfits with ⟨xss, rfl, h⟩ | ⟨xss, e, rest, rfl, h⟩ |
                ⟨xss, group, rest, rfl, h⟩ | ⟨xss, ys, rest, rfl, h, h'⟩
              · exact .inl ⟨xs :: xss, rfl, by rw [hlen]; exact h⟩
              · exact .inr (.inl ⟨xs :: xss, e, rest, rfl, by rw [hlen]; exact h⟩)
              · exact .inr (.inr (.inl ⟨xs :: xss, group, rest, rfl, (hlen xss).trans h⟩))
              · exact .inr (.inr (.inr ⟨xs :: xss, ys, rest, rfl, by rw [hlen]; exact h,
                  by rw [hlen]; exact h'⟩))

/-- A group that could not be made is noticed while there is room. -/
theorem gather_error {n : Nat} {l : List α} {e : ε} (rest : List (Except ε (List α)))
    (hroom : l.length < n) :
    gather n (filled n l) l.length (.error e :: rest) = (filled n l, .error e) := by
  rw [gather, if_neg (by omega)]

/-- A full buffer takes no more groups. -/
theorem gather_full {n j : Nat} (b : Buffer α) (groups : List (Except ε (List α))) (hfull : n ≤ j) :
    gather n b j groups = (b, .ok j) := by
  cases groups with
  | nil => rfl
  | cons group groups =>
      unfold gather
      exact if_pos hfull

/-- A group that begins inside the buffer is written to its last element. -/
theorem gather_over {n : Nat} {l xs : List α} (rest : List (Except ε (List α)))
    (hroom : l.length < n) (hover : n < l.length + xs.length) :
    (gather n (filled n l) l.length (.ok xs :: rest)).1.overrun = true := by
  rw [gather, if_neg (by omega), gather_full _ _ (by omega), overrun_putAll,
    length_filled (by omega)]
  refine .inr ⟨hover, ?_⟩
  rintro rfl
  rw [List.length_nil] at hover
  omega

/-- All groups can be made, and together they fit. -/
def AllFit (n : Nat) (groups : List (Except ε (List α))) : Prop :=
  ∃ xss : List (List α), groups = xss.map .ok ∧ xss.flatten.length ≤ n

/-- A group cannot be made, and those before it leave a place free. -/
def FailsInTime (n : Nat) (groups : List (Except ε (List α))) (e : ε) : Prop :=
  ∃ (xss : List (List α)) (rest : List (Except ε (List α))),
    groups = xss.map .ok ++ .error e :: rest ∧ xss.flatten.length < n

theorem FailsInTime.unique {n : Nat} {groups : List (Except ε (List α))} {e e' : ε}
    (h : FailsInTime n groups e) (h' : FailsInTime n groups e') : e = e' := by
  rcases h with ⟨xss, rest, rfl, -⟩
  rcases h' with ⟨yss, rest', heq, -⟩
  -- the groups in front of the errors are the same
  rcases made_prefix (by simp) heq with ⟨zss, -, htail⟩
  cases zss with
  | nil => exact Except.error.inj (List.cons.inj htail).1
  | cons zs zss => cases (List.cons.inj htail).1

theorem FailsInTime.not_allFit {n m : Nat} {groups : List (Except ε (List α))} {e : ε}
    (h : FailsInTime n groups e) : ¬ AllFit m groups := by
  rcases h with ⟨xss, rest, rfl, -⟩
  rintro ⟨yss, heq, -⟩
  have hmem : Except.error e ∈ xss.map Except.ok ++ Except.error e :: rest := by simp
  rw [heq] at hmem
  rcases List.mem_map.mp hmem with ⟨ys, -, hys⟩
  cases hys

/-- Groups that fill the buffer, and one behind them that is too much. -/
theorem not_fits {n : Nat} {xss : List (List α)} {group : Except ε (List α)}
    {rest : List (Except ε (List α))}
    (hmade : ∀ xs, group = .ok xs → n < xss.flatten.length + xs.length)
    (hfailed : ∀ e, group = .error e → n ≤ xss.flatten.length) :
    ¬ AllFit n (xss.map .ok ++ group :: rest) ∧
      ∀ e, ¬ FailsInTime n (xss.map .ok ++ group :: rest) e := by
  constructor
  · -- all groups that were made: this one is among them
    rintro ⟨yss, heq, hle⟩
    rw [← List.append_nil (yss.map Except.ok)] at heq
    rcases made_prefix (by simp) heq with ⟨zss, rfl, htail⟩
    rw [List.flatten_append, List.length_append] at hle
    cases zss with
    | nil => cases htail
    | cons zs zss =>
        have hlong := hmade zs (List.cons.inj htail).1
        rw [List.flatten_cons, List.length_append] at hle
        omega
  · -- up to an error: this one is it, or was made before it
    rintro e ⟨yss, rest', heq, hlt⟩
    rcases made_prefix (by simp) heq with ⟨zss, rfl, htail⟩
    rw [List.flatten_append, List.length_append] at hlt
    cases zss with
    | nil =>
        have hlong := hfailed e (List.cons.inj htail).1
        omega
    | cons zs zss =>
        have hlong := hmade zs (List.cons.inj htail).1
        rw [List.flatten_cons, List.length_append] at hlt
        omega

/-- What a new buffer is filled with: all groups; or those up to the first that could not be made;
or, where they do not fit, too much or too little. -/
theorem gather_new {n : Nat} {groups : List (Except ε (List α))}
    (hne : ∀ xs, .ok xs ∈ groups → xs ≠ []) :
    (∃ xss : List (List α), groups = xss.map .ok ∧ xss.flatten.length ≤ n ∧
        gather n (new n) 0 groups = (filled n xss.flatten, .ok xss.flatten.length)) ∨
      (∃ (xs : List α) (e : ε), FailsInTime n groups e ∧
        gather n (new n) 0 groups = (filled n xs, .error e)) ∨
      (¬ AllFit n groups ∧ ∀ e, ¬ FailsInTime n groups e) ∧
        ((gather n (new n) 0 groups).1.overrun = true ∨
          ∃ xs : List α, xs.length = n ∧ gather n (new n) 0 groups = (filled n xs, .ok n)) := by
  have hmade : ∀ {xss : List (List α)} {rest : List (Except ε (List α))},
      groups = xss.map .ok ++ rest → xss.flatten.length ≤ n →
        gather n (new n) 0 groups =
          gather n (filled n xss.flatten) xss.flatten.length rest := by
    intro xss rest heq hle
    subst heq
    have hgroups := gather_map_ok (n := n) (l := []) xss
      (fun xs hxs => hne xs (by simp [hxs])) (by simpa using hle) rest
    exact hgroups
  rcases gather_cases (n := n) groups (Nat.zero_le n) with ⟨xss, heq, hle⟩ |
    ⟨xss, e, rest, heq, hlt⟩ | ⟨xss, group, rest, heq, hfull⟩ | ⟨xss, xs, rest, heq, hlt, hover⟩
  all_goals rw [Nat.zero_add] at *
  · -- everything is put
    refine .inl ⟨xss, heq, hle, ?_⟩
    rw [hmade (heq.trans (List.append_nil _).symm) hle]
    rfl
  · -- an error comes while there is room
    refine .inr (.inl ⟨xss.flatten, e, ⟨xss, rest, heq, hlt⟩, ?_⟩)
    rw [hmade heq (by omega), gather_error rest hlt]
  · -- the buffer is full and a group is left
    refine .inr (.inr ⟨?_, .inr ⟨xss.flatten, hfull, ?_⟩⟩)
    · rw [heq]
      refine not_fits ?_ fun _ _ => by omega
      intro xs hxs
      have hpos := List.length_pos_iff.mpr (hne xs (by rw [heq, hxs]; simp))
      omega
    · rw [hmade heq (by omega), hfull, gather_full _ _ (by omega)]
  · -- the last group does not fit
    refine .inr (.inr ⟨?_, .inl ?_⟩)
    · rw [heq]
      refine not_fits ?_ fun _ h => nomatch h
      rintro ys h
      cases h
      omega
    · rw [hmade heq (by omega)]
      exact gather_over rest hlt hover

end Gather

end Buffer

end EfiLvgl
