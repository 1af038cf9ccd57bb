import Mathlib.Data.List.Basic

/-!
# EfiLvgl.Lib.Source — values that come in pieces

A source is read for so many values and answers some of the next ones, or an error. `Delivers`
says what of it is left, and that nothing is lost or made up; where it may be not ready yet, it
answers the error `again` and leaves everything in place. `Accepts` is the same of a sink, which is
handed values and takes some of them. `takeUnits` takes units from a list, whose length the first
value of each tells. Nothing here names a particular program.
-/

namespace EfiLvgl.Source

universe u v w

/-! ## Sources -/

/-- What is left of the source is `rest`. Only an empty source answers no value at all, and only
one that does not block answers an error. -/
structure Delivers {σ : Type u} {α : Type v} {ε : Type w}
    (read : σ → Nat → σ × Except ε (List α)) (rest : σ → List α) (again : ε)
    (nonBlocking : Prop) : Prop where
  values : ∀ {s s' : σ} {n : Nat} {out : List α}, 0 < n → read s n = (s', .ok out) →
    out.length ≤ n ∧ rest s = out ++ rest s' ∧ (out = [] → rest s = [])
  error : ∀ {s s' : σ} {n : Nat} {e : ε}, 0 < n → read s n = (s', .error e) →
    e = again ∧ nonBlocking ∧ rest s' = rest s

/-- A source that answers at most `k + 1` values at once. -/
def atMost {α : Type v} (ε : Type w) (k : Nat) (l : List α) (n : Nat) :
    List α × Except ε (List α) :=
  (l.drop (min n (k + 1)), .ok (l.take (min n (k + 1))))

/-- A source with a list of what it is going to do: 0 is that it is not ready. -/
def pieces {α : Type v} {ε : Type w} (again : ε) :
    List α × List Nat → Nat → (List α × List Nat) × Except ε (List α)
  | (l, []), n => ((l.drop n, []), .ok (l.take n))
  | (l, 0 :: ks), _ => ((l, ks), .error again)
  | (l, (k + 1) :: ks), n => ((l.drop (min n (k + 1)), ks), .ok (l.take (min n (k + 1))))

/-- Some of the next values are read. -/
theorem taken {α : Type v} (l : List α) {m n : Nat} (hm : 0 < m) (hle : m ≤ n) :
    (l.take m).length ≤ n ∧ l = l.take m ++ l.drop m ∧ (l.take m = [] → l = []) := by
  refine ⟨Nat.le_trans (List.length_take_le m l) hle, (List.take_append_drop m l).symm, ?_⟩
  intro hempty
  -- at least one value was asked for
  rcases List.take_eq_nil_iff.mp hempty with hzero | hnil
  · omega
  · exact hnil

theorem atMost_delivers {α : Type v} {ε : Type w} (k : Nat) (again : ε) :
    Delivers (@atMost α ε k) id again False := by
  constructor
  · intro s s' n out hn hread
    rw [atMost, Prod.mk.injEq, Except.ok.injEq] at hread
    obtain ⟨rfl, rfl⟩ := hread
    exact taken s (by omega) (Nat.min_le_left _ _)
  · intro s s' n e hn hread
    rw [atMost, Prod.mk.injEq] at hread
    cases hread.2

theorem pieces_delivers {α : Type v} {ε : Type w} (again : ε) :
    Delivers (@pieces α ε again) Prod.fst again True := by
  constructor
  · intro s s' n out hn hread
    rcases s with ⟨l, _ | ⟨_ | k, ks⟩⟩
    · rw [pieces, Prod.mk.injEq, Except.ok.injEq] at hread
      obtain ⟨rfl, rfl⟩ := hread
      exact taken l hn (Nat.le_refl n)
    · rw [pieces, Prod.mk.injEq] at hread
      cases hread.2
    · rw [pieces, Prod.mk.injEq, Except.ok.injEq] at hread
      obtain ⟨rfl, rfl⟩ := hread
      exact taken l (by omega) (Nat.min_le_left _ _)
  · intro s s' n e hn hread
    rcases s with ⟨l, _ | ⟨_ | k, ks⟩⟩
    · rw [pieces, Prod.mk.injEq] at hread
      cases hread.2
    · -- not ready: the list stays as it is
      rw [pieces, Prod.mk.injEq, Except.error.injEq] at hread
      obtain ⟨rfl, rfl⟩ := hread
      exact ⟨rfl, trivial, rfl⟩
    · rw [pieces, Prod.mk.injEq] at hread
      cases hread.2

/-! ## Sinks -/

/-- What the sink has taken is `got`. It takes some of the first values that are handed to it, or
answers an error and takes none. Only one that `refuses` values takes none of them. -/
structure Accepts {σ : Type u} {α : Type v} {ε : Type w}
    (write : σ → List α → σ × Except ε Nat) (got : σ → List α) (refuses : Prop) : Prop where
  count : ∀ {s s' : σ} {l : List α} {n : Nat}, write s l = (s', .ok n) →
    n ≤ l.length ∧ got s' = got s ++ l.take n ∧ (n = 0 → l = [] ∨ refuses)
  error : ∀ {s s' : σ} {l : List α} {e : ε}, write s l = (s', .error e) →
    got s' = got s ∧ refuses

/-- A sink with a list of what it is going to do: 0 is that it is not ready. -/
def takes {α : Type v} {ε : Type w} (again : ε) :
    List α × List Nat → List α → (List α × List Nat) × Except ε Nat
  | (got, []), l => ((got ++ l, []), .ok l.length)
  | (got, 0 :: ks), _ => ((got, ks), .error again)
  | (got, (k + 1) :: ks), l =>
      ((got ++ l.take (k + 1), ks), .ok (min (k + 1) l.length))

theorem takes_accepts {α : Type v} {ε : Type w} (again : ε) :
    Accepts (@takes α ε again) Prod.fst True := by
  constructor
  · intro s s' l n hwrite
    rcases s with ⟨got, _ | ⟨_ | k, ks⟩⟩
    · rw [takes, Prod.mk.injEq, Except.ok.injEq] at hwrite
      obtain ⟨rfl, rfl⟩ := hwrite
      exact ⟨Nat.le_refl _, by rw [List.take_length], fun _ => .inr trivial⟩
    · rw [takes, Prod.mk.injEq] at hwrite
      cases hwrite.2
    · rw [takes, Prod.mk.injEq, Except.ok.injEq] at hwrite
      obtain ⟨rfl, rfl⟩ := hwrite
      exact ⟨Nat.min_le_right _ _, by rw [List.take_eq_take_min], fun _ => .inr trivial⟩
  · intro s s' l e hwrite
    rcases s with ⟨got, _ | ⟨_ | k, ks⟩⟩
    · rw [takes, Prod.mk.injEq] at hwrite
      cases hwrite.2
    · rw [takes, Prod.mk.injEq] at hwrite
      -- not ready: nothing is taken
      obtain ⟨rfl, -⟩ := hwrite
      exact ⟨rfl, trivial⟩
    · rw [takes, Prod.mk.injEq] at hwrite
      cases hwrite.2

/-! ## Units -/

variable {α : Type v} (size : α → Nat)

/-- The first `k` units of a list. The last one may be cut short by the end of the list. -/
def takeUnits : Nat → List α → List α
  | 0, _ => []
  | _ + 1, [] => []
  | k + 1, a :: l => (a :: l).take (size a) ++ takeUnits k ((a :: l).drop (size a))

theorem takeUnits_nil (k : Nat) : takeUnits size k [] = [] := by
  cases k with
  | zero => rfl
  | succ k => rfl

variable {size}

/-- A whole unit comes first. -/
theorem takeUnits_whole {a : α} {l : List α} (h : size a ≤ (a :: l).length) (k : Nat)
    (rest : List α) : takeUnits size (k + 1) (a :: l ++ rest) =
      (a :: l).take (size a) ++ takeUnits size k ((a :: l).drop (size a) ++ rest) := by
  rw [List.cons_append, takeUnits, ← List.cons_append, List.take_append_of_le_length h,
    List.drop_append_of_le_length h]

/-- All there is belongs to one unit. -/
theorem takeUnits_part {a : α} {l : List α} (h : (a :: l).length ≤ size a) (k : Nat) :
    takeUnits size (k + 1) (a :: l) = a :: l := by
  rw [takeUnits, List.take_of_length_le h, List.drop_eq_nil_of_le h, takeUnits_nil,
    List.append_nil]

end EfiLvgl.Source
