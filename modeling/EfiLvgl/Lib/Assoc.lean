import Mathlib.Data.List.Perm.Basic

/-!
# EfiLvgl.Lib.Assoc — lists of keys and values

A finite map as a list of pairs, no two of which have equal keys. Keys are compared by a function of
their own, that need not tell everything about a key: what is put under an equal key replaces the
value alone. Nothing here names a particular program:

* `find`, `put` and `del`, and what they come to when the pair that is meant is known
  (`find_split`, `put_split`, `del_split`) or there is none;
* `Distinct.of_perm` and the rules of the same kind: the order of the pairs does not matter.
-/

namespace EfiLvgl.Assoc

universe u v

/-- A way of comparing keys. -/
structure KeyEq (K : Type u) where
  equal : K → K → Bool
  refl : ∀ k, equal k k = true
  symm : ∀ {k l}, equal k l = true → equal l k = true
  trans : ∀ {k l m}, equal k l = true → equal l m = true → equal k m = true

namespace KeyEq

variable {K : Type u} (E : KeyEq K)

theorem comm (k l : K) : E.equal k l = E.equal l k := by
  rw [Bool.eq_iff_iff]
  exact ⟨E.symm, E.symm⟩

/-- Equal keys are compared alike. -/
theorem congr {k l : K} (h : E.equal k l = true) (m : K) : E.equal m k = E.equal m l := by
  rw [Bool.eq_iff_iff]
  exact ⟨fun hk => E.trans hk h, fun hl => E.trans hl (E.symm h)⟩

end KeyEq

variable {K : Type u} {V : Type v} (E : KeyEq K)

/-! ## Operations -/

/-- The pair of a key. -/
def find (l : List (K × V)) (k : K) : Option (K × V) := l.find? fun e => E.equal e.1 k

/-- A value under a key: in the place of the one before, or at the end. -/
def put : List (K × V) → K → V → List (K × V)
  | [], k, v => [(k, v)]
  | e :: l, k, v => if E.equal e.1 k then (e.1, v) :: l else e :: put l k v

/-- The list without the pair of a key. -/
def del (l : List (K × V)) (k : K) : List (K × V) := l.eraseP fun e => E.equal e.1 k

/-- No pair of the list has the key. -/
def Absent (l : List (K × V)) (k : K) : Prop := ∀ e ∈ l, E.equal e.1 k = false

/-- No two pairs have equal keys. -/
def Distinct (l : List (K × V)) : Prop := l.Pairwise fun e f => E.equal e.1 f.1 = false

variable {E} {l a b : List (K × V)} {k k' : K} {v v' : V}

/-! ## A key that is not there -/

theorem find_absent (h : Absent E l k) : find E l k = none := by
  rw [find, List.find?_eq_none]
  intro e he
  rw [h e he]
  exact Bool.false_ne_true

theorem put_absent (h : Absent E l k) : put E l k v = l ++ [(k, v)] := by
  induction l with
  | nil => rfl
  | cons e l ih =>
      have hhead := h e List.mem_cons_self
      have htail : Absent E l k := fun f hf => h f (List.mem_cons_of_mem e hf)
      rw [put, hhead, if_neg Bool.false_ne_true, ih htail, List.cons_append]

theorem del_absent (h : Absent E l k) : del E l k = l := by
  rw [del, List.eraseP_of_forall_not]
  intro e he
  rw [h e he]
  exact Bool.false_ne_true

/-! ## A key that is there -/

theorem find_split (hbefore : Absent E a k) (hkey : E.equal k' k = true) :
    find E (a ++ (k', v') :: b) k = some (k', v') := by
  have hnone := find_absent hbefore
  rw [find] at hnone
  have hhead : List.find? (fun e => E.equal e.1 k) ((k', v') :: b) = some (k', v') := by
    rw [List.find?_cons, hkey]
  rw [find, List.find?_append, hnone, hhead]
  rfl

theorem put_split (hbefore : Absent E a k) (hkey : E.equal k' k = true) :
    put E (a ++ (k', v') :: b) k v = a ++ (k', v) :: b := by
  induction a with
  | nil => exact if_pos hkey
  | cons e a ih =>
      have hhead := hbefore e List.mem_cons_self
      have htail : Absent E a k := fun f hf => hbefore f (List.mem_cons_of_mem e hf)
      rw [List.cons_append, put, hhead, if_neg Bool.false_ne_true, ih htail, List.cons_append]

theorem del_split (hbefore : Absent E a k) (hkey : E.equal k' k = true) :
    del E (a ++ (k', v') :: b) k = a ++ b := by
  have hnone : ∀ e ∈ a, ¬ E.equal e.1 k = true := by
    intro e he
    rw [hbefore e he]
    exact Bool.false_ne_true
  rw [del, List.eraseP_append_right _ hnone]
  exact congrArg (a ++ ·) (List.eraseP_cons_of_pos hkey)

/-! ## The order of the pairs -/

theorem Absent.of_perm (h : Absent E l k) (hperm : a.Perm l) : Absent E a k :=
  fun e he => h e (hperm.mem_iff.mp he)

theorem Distinct.of_perm (h : Distinct E l) (hperm : a.Perm l) : Distinct E a := by
  apply (List.Perm.pairwise_iff ?_ hperm).mpr h
  intro e f hef
  rw [E.comm, hef]

/-- Around a pair, no other has a key that is equal to its. -/
theorem Distinct.split (h : Distinct E (a ++ (k', v') :: b)) (hkey : E.equal k' k = true) :
    Absent E (a ++ b) k := by
  have hpair : Distinct E ((k', v') :: (a ++ b)) := h.of_perm List.perm_middle.symm
  have hrest := (List.pairwise_cons.mp hpair).1
  -- moved to the front, the pair is compared with all others
  intro e he
  rw [← E.congr hkey, E.comm, hrest e he]

theorem Distinct.absent_left (h : Distinct E (a ++ (k', v') :: b)) (hkey : E.equal k' k = true) :
    Absent E a k :=
  fun e he => h.split hkey e (List.mem_append_left b he)

/-- The pairs that are left are still unique. -/
theorem Distinct.remove (h : Distinct E (a ++ (k', v') :: b)) : Distinct E (a ++ b) := by
  have hpair : Distinct E ((k', v') :: (a ++ b)) := h.of_perm List.perm_middle.symm
  exact (List.pairwise_cons.mp hpair).2

/-- A value is replaced. -/
theorem Distinct.replace (h : Distinct E (a ++ (k', v') :: b)) (v : V) :
    Distinct E (a ++ (k', v) :: b) := by
  have hpair : Distinct E ((k', v') :: (a ++ b)) := h.of_perm List.perm_middle.symm
  have hreplaced : Distinct E ((k', v) :: (a ++ b)) :=
    List.pairwise_cons.mpr (List.pairwise_cons.mp hpair)
  exact hreplaced.of_perm List.perm_middle

/-- A new key, anywhere. -/
theorem Distinct.insert (h : Distinct E (a ++ b)) (habsent : Absent E (a ++ b) k) (v : V) :
    Distinct E (a ++ (k, v) :: b) := by
  have hpair : Distinct E ((k, v) :: (a ++ b)) := by
    apply List.pairwise_cons.mpr ⟨?_, h⟩
    intro e he
    rw [E.comm, habsent e he]
  exact hpair.of_perm List.perm_middle

/-- A pair whose key is equal, in a list that has the same pairs. -/
theorem Distinct.exists_split (h : Distinct E l) (hperm : (a ++ (k', v') :: b).Perm l)
    (hkey : E.equal k' k = true) :
    ∃ c d, l = c ++ (k', v') :: d ∧ (a ++ b).Perm (c ++ d) ∧ Absent E c k := by
  have hmem : (k', v') ∈ l := hperm.mem_iff.mp (List.mem_append_right a List.mem_cons_self)
  obtain ⟨c, d, rfl⟩ := List.append_of_mem hmem
  have hrest : ((k', v') :: (a ++ b)).Perm ((k', v') :: (c ++ d)) :=
    List.perm_middle.symm.trans (hperm.trans List.perm_middle)
  exact ⟨c, d, rfl, hrest.cons_inv, h.absent_left hkey⟩

/-! ## Two lists -/

/-- A key that is found is one of a pair of the list. -/
theorem exists_split_of_find {e : K × V} (h : find E l k = some e) :
    ∃ a b, l = a ++ e :: b ∧ E.equal e.1 k = true := by
  rw [find] at h
  obtain ⟨a, b, rfl⟩ := List.append_of_mem (List.mem_of_find?_eq_some h)
  have hequal := List.find?_some h
  exact ⟨a, b, rfl, hequal⟩

theorem absent_of_find (h : find E l k = none) : Absent E l k := by
  intro e he
  exact (Bool.not_eq_true _).mp (List.find?_eq_none.mp h e he)

/-- Equal keys are found alike. -/
theorem find_congr (hkey : E.equal k k' = true) (l : List (K × V)) : find E l k = find E l k' := by
  rw [find, find]
  congr 1
  funext e
  exact E.congr hkey e.1

/-- A key that is not that of a pair is found among the others. -/
theorem find_others {e : K × V} (hfound : find E (a ++ e :: b) k ≠ none)
    (hother : E.equal e.1 k = false) : find E (a ++ b) k ≠ none := by
  intro hnone
  have habsent := absent_of_find hnone
  apply hfound
  apply find_absent
  intro f hf
  rw [List.mem_append, List.mem_cons] at hf
  rcases hf with ha | rfl | hb
  · exact habsent f (List.mem_append_left b ha)
  · exact hother
  · exact habsent f (List.mem_append_right a hb)

/-- A list whose keys are all found in another is no longer. -/
theorem Distinct.length_le {m : List (K × V)} (hdistinct : Distinct E l)
    (hfound : ∀ e ∈ l, find E m e.1 ≠ none) : l.length ≤ m.length := by
  induction l generalizing m with
  | nil => exact Nat.zero_le _
  | cons e l ih =>
      obtain ⟨f, hf⟩ := Option.ne_none_iff_exists'.mp (hfound e List.mem_cons_self)
      obtain ⟨c, d, rfl, hequal⟩ := exists_split_of_find hf
      obtain ⟨hhead, htail⟩ := List.pairwise_cons.mp hdistinct
      -- the others are found in what is left
      have hrest : ∀ g ∈ l, find E (c ++ d) g.1 ≠ none := by
        intro g hg
        apply find_others (hfound g (List.mem_cons_of_mem e hg))
        rw [E.comm, E.congr hequal, E.comm]
        exact hhead g hg
      have hle := ih htail hrest
      rw [List.length_append] at hle
      rw [List.length_append, List.length_cons, List.length_cons]
      omega

/-- If the other list is no longer, its keys are found, too. -/
theorem Distinct.covers {l' : List (K × V)} (hdistinct : Distinct E l)
    (hfound : ∀ e ∈ l, find E l' e.1 ≠ none) (hlength : l'.length ≤ l.length) :
    ∀ e' ∈ l', find E l e'.1 ≠ none := by
  intro e' he' hnone
  obtain ⟨c, d, rfl⟩ := List.append_of_mem he'
  have habsent := absent_of_find hnone
  -- without a pair that is not found the other list would be too short
  have hle := hdistinct.length_le (m := c ++ d) fun e he =>
    find_others (hfound e he) (by rw [E.comm]; exact habsent e he)
  rw [List.length_append] at hle
  rw [List.length_append, List.length_cons] at hlength
  omega

/-- A pair is found under its key. -/
theorem Distinct.find_mem (hdistinct : Distinct E l) {e : K × V} (he : e ∈ l) :
    find E l e.1 = some e := by
  obtain ⟨a, b, rfl⟩ := List.append_of_mem he
  exact find_split (hdistinct.absent_left (E.refl e.1)) (E.refl e.1)

end EfiLvgl.Assoc
