import EfiLvgl.Re.Split

/-!
# EfiLvgl.Re.Bounds — strings that stay inside the subject

A group that takes no part in a match begins and ends at −1, and groups may begin before the one
before them ended. `split` then asks for strings of negative lengths. These are more than the heap
has, save for −1 (`newStrOfType`). `match_group` asks for an empty string in front of the
subject. `results_inside_iff` says when nothing of the kind happens.
-/

namespace EfiLvgl.Re

open EfiLvgl.Uefi

/-! ## `match_group` -/

/-- `mp_obj_match_t`. -/
structure Match where
  string : Subject
  caps : OnigRegion
  wellFormed : ∀ g ∈ caps, g.WellFormed string.data.length

theorem Match.toNat_lt_length (self : Match) (no : Int)
    (h : ¬ (no < 0 ∨ self.caps.length ≤ no)) : no.toNat < self.caps.length := by
  omega

/-- `match_group`. -/
def matchGroup (a : Arch) (self : Match) (noIn : Int) : Except Fault Piece :=
  match getInt a noIn with
  | .error e => .error (.raise e)
  | .ok no =>
      if h : no < 0 ∨ self.caps.length ≤ no then
        .error (.raise (.raise .indexError (toString noIn)))
      else
        let g := self.caps.get ⟨no.toNat, self.toNat_lt_length no h⟩
        newStrOfType self.string.strType g.beg (g.stop - g.beg)

/-! ## Inside the subject -/

/-- The piece starts and ends inside a subject of so many characters. -/
def Inside (n : Nat) (p : Piece) : Prop :=
  0 ≤ p.start ∧ p.start ≤ n ∧ 0 ≤ p.len ∧ p.start + p.len ≤ n

/-- All that is built is inside, or an exception is raised. -/
def Outcome.Contained (n : Nat) : Outcome → Prop
  | .returns result => ∀ p ∈ result, Inside n p
  | .stops fault result => fault ≠ .overrun ∧ ∀ p ∈ result, Inside n p

/-- The group is inside, or an exception is raised. -/
def GroupContained (n : Nat) : Except Fault Piece → Prop
  | .ok p => Inside n p
  | .error fault => fault ≠ .overrun

/-- The groups there are cuts at. -/
def cutsUpTo (maxSplit : Int) (regions : List OnigRegion) : List Group :=
  (regions.take (limitOf maxSplit regions.length)).flatMap cutsOf

/-- No cut begins one character before the last one ended, as long as each begins behind the one
before it. -/
def NeverOneBack : Int → List Group → Prop
  | _, [] => True
  | stop, g :: gs => g.beg ≠ stop - 1 ∧ (stop ≤ g.beg → NeverOneBack g.stop gs)

section Cuts

variable {n : Nat} {gs : List Group}

theorem forall_mem_concat {l : List Piece} {p : Piece} (hl : ∀ q ∈ l, Inside n q)
    (hp : Inside n p) : ∀ q ∈ l ++ [p], Inside n q := by
  intro q hq
  rcases List.mem_append.mp hq with hq | hq
  · exact hl q hq
  · exact List.mem_singleton.mp hq ▸ hp

theorem inside_tail {d : SplitData} (hstart : 0 ≤ d.stop) (hstop : d.stop ≤ n) :
    Inside n ⟨d.strType, d.stop, n - d.stop⟩ := by
  refine ⟨hstart, hstop, ?_, ?_⟩ <;> dsimp only <;> omega

/-- At a group that begins before the last cut ended, the run ends. -/
theorem cut_back_contained_iff {d : SplitData} {g : Group} {rest : Splitting Unit}
    (hback : g.beg < d.stop) (hresult : ∀ p ∈ d.result, Inside n p) :
    (outcome (do cutAt g; rest) d).Contained n ↔ g.beg ≠ d.stop - 1 := by
  have hend : outcome (do cutAt g; rest) d =
      .stops (if g.beg = d.stop - 1 then .overrun else .memoryError) d.result := by
    rw [outcome, bind_apply_error (cutAt_back hback)]
  rw [hend]
  by_cases hone : g.beg = d.stop - 1
  · rw [if_pos hone]
    exact iff_of_false (fun h => h.1 rfl) (fun h => h hone)
  · rw [if_neg hone]
    refine iff_of_true ⟨?_, hresult⟩ hone
    intro h
    cases h

/-- A group behind the last cut takes part, since one that does not would be in front of it. -/
theorem Group.WellFormed.inside {g : Group} (hwell : g.WellFormed n) {stop : Int}
    (hstop : 0 ≤ stop) (hbehind : stop ≤ g.beg) : 0 ≤ g.beg ∧ g.beg ≤ g.stop ∧ g.stop ≤ n := by
  rcases hwell with rfl | h
  · have hneg : Group.absent.beg = -1 := rfl
    omega
  · exact h

/-- The cuts of a run that starts inside the subject. -/
theorem cuts_contained_iff {d : SplitData} (hwell : ∀ g ∈ gs, g.WellFormed n) (hstart : 0 ≤ d.stop)
    (hstop : d.stop ≤ n) (hresult : ∀ p ∈ d.result, Inside n p) :
    (outcome (do cutAll gs; appendPiece n) d).Contained n ↔ NeverOneBack d.stop gs := by
  induction gs generalizing d with
  | nil =>
      have hrest : outcome (do cutAll []; appendPiece n) d =
          .returns (d.result ++ [⟨d.strType, d.stop, n - d.stop⟩]) := by
        show outcome (appendPiece n) d = _
        rw [outcome, appendPiece_ok hstop]
      rw [hrest]
      exact iff_of_true (forall_mem_concat hresult (inside_tail hstart hstop)) trivial
  | cons g gs ih =>
      have hbind : (do cutAll (g :: gs); appendPiece n) =
          (do cutAt g; (do cutAll gs; appendPiece n) : Splitting Unit) := by
        rw [cutAll, bind_assoc]
      rw [hbind]
      by_cases hback : g.beg < d.stop
      · -- the cut begins in front of where the last one ended, so its piece has a negative length
        rw [cut_back_contained_iff hback hresult]
        constructor
        · intro hone
          exact ⟨hone, fun hle => absurd hle (Int.not_le.mpr hback)⟩
        · intro h
          exact h.1
      · have hbehind : d.stop ≤ g.beg := Int.not_lt.mp hback
        have hinside := (hwell g (List.mem_cons_self ..)).inside hstart hbehind
        have hpiece : Inside n ⟨d.strType, d.stop, g.beg - d.stop⟩ := by
          refine ⟨hstart, hstop, ?_, ?_⟩ <;> dsimp only <;> omega
        have hgo : outcome (do cutAt g; (do cutAll gs; appendPiece n)) d =
            outcome (do cutAll gs; appendPiece n) (d.cutOff g) := by
          unfold outcome
          rw [bind_apply_ok (cutAt_ok hbehind)]
        have hrest := ih (d := d.cutOff g) (fun h hh => hwell h (List.mem_cons_of_mem _ hh))
          (by show 0 ≤ g.stop; omega) hinside.2.2 (forall_mem_concat hresult hpiece)
        rw [hgo, hrest]
        constructor
        · intro h
          exact ⟨by omega, fun _ => h⟩
        · intro h
          exact h.2 hbehind

theorem wellFormed_cutsUpTo {maxSplit : Int} {regions : List OnigRegion}
    (h : ∀ region ∈ regions, ∀ g ∈ region, g.WellFormed n) :
    ∀ g ∈ cutsUpTo maxSplit regions, g.WellFormed n := by
  intro g hg
  rcases List.mem_flatMap.mp hg with ⟨region, hregion, hg⟩
  exact h region (List.mem_of_mem_take hregion) g (List.mem_of_mem_drop hg)

end Cuts

/-! ## When everything is inside -/

section Results

variable (a : Arch) (s : Subject) (maxsplit : Option Int)

theorem reSplit_contained_iff (self : Regex) :
    (reSplit a self s maxsplit).Contained s.data.length ↔
      ∀ m, getInt a (maxsplit.getD 0) = .ok m →
        NeverOneBack 0 (cutsUpTo (cInt m) (self.reports s.data)) := by
  by_cases hint : -(a.word : Int) < 2 * maxsplit.getD 0 ∧ 2 * maxsplit.getD 0 < a.word
  · have hok : getInt a (maxsplit.getD 0) = .ok (maxsplit.getD 0) := if_pos hint
    rw [reSplit_cuts hint]
    refine Iff.trans (cuts_contained_iff (wellFormed_cutsUpTo (self.wellFormed s.data))
      (Int.le_refl 0) (Int.natCast_nonneg _) ?_) ?_
    · intro p hp
      cases hp
    · constructor
      · intro h m hm
        rw [hok] at hm
        cases hm
        exact h
      · intro h
        exact h _ hok
  · -- maxsplit is refused, and nothing is cut
    have hover : getInt a (maxsplit.getD 0) =
        .error (.raise .overflowError "overflow converting long int to machine word") :=
      if_neg hint
    rw [reSplit, hover]
    constructor
    · intro _ m hm
      cases hm
    · intro _
      refine ⟨?_, ?_⟩
      · intro h
        cases h
      · intro p hp
        cases hp

theorem uefiModReSplit_contained_iff (onigurumaCompile : List UInt8 → Option Regex)
    (pattern : List UInt8) :
    (uefiModReSplit a onigurumaCompile pattern s maxsplit).Contained s.data.length ↔
      ∀ m self, getInt a (maxsplit.getD 0) = .ok m → onigurumaCompile pattern = some self →
        NeverOneBack 0 (cutsUpTo (cInt m) (self.reports s.data)) := by
  cases hcompile : onigurumaCompile pattern with
  | some self =>
      rw [uefiModReSplit_eq hcompile, reSplit_contained_iff]
      constructor
      · intro h m self' hm hself
        cases hself
        exact h m hm
      · intro h m hm
        exact h m self hm rfl
  | none =>
      -- the list stays empty
      constructor
      · intro _ m self _ hself
        cases hself
      · intro _
        unfold uefiModReSplit
        cases getInt a (maxsplit.getD 0) with
        | error e =>
            refine ⟨?_, ?_⟩
            · intro h
              cases h
            · intro p hp
              cases hp
        | ok m =>
            rw [hcompile]
            intro p hp
            cases hp

theorem matchGroup_contained_iff (self : Match) (no : Int) :
    GroupContained self.string.data.length (matchGroup a self no) ↔
      ∀ k, getInt a no = .ok k → 0 ≤ k → self.caps[k.toNat]? ≠ some .absent := by
  unfold matchGroup
  cases getInt a no with
  | error e =>
      constructor
      · intro _ k hk
        cases hk
      · intro _ h
        cases h
  | ok k =>
      dsimp only
      by_cases hk : k < 0 ∨ self.caps.length ≤ k
      · -- an `IndexError`
        rw [dif_pos hk]
        constructor
        · intro _ j hj hnonneg hsome
          cases hj
          have hlt := (List.getElem?_eq_some_iff.mp hsome).1
          omega
        · intro _ h
          cases h
      · have hlt := self.toNat_lt_length k hk
        have hget : self.caps[k.toNat]? = some (self.caps.get ⟨k.toNat, hlt⟩) :=
          List.getElem?_eq_getElem hlt
        have hwell := self.wellFormed (self.caps.get ⟨k.toNat, hlt⟩) (List.get_mem _ _)
        rw [dif_neg hk]
        generalize self.caps.get ⟨k.toNat, hlt⟩ = g at hget hwell ⊢
        rcases hwell with rfl | hinside
        · -- a group that takes no part begins at -1
          constructor
          · intro h
            have hstart : (0 : Int) ≤ -1 := h.1
            exact absurd hstart (by decide)
          · intro h
            exact absurd hget (h k rfl (by omega))
        · have hnew : newStrOfType self.string.strType g.beg (g.stop - g.beg) =
              .ok ⟨self.string.strType, g.beg, g.stop - g.beg⟩ := if_pos (by omega)
          rw [hnew]
          constructor
          · intro _ j hj _ hsome
            cases hj
            rw [hget] at hsome
            cases hsome
            exact absurd hinside.1 (by decide)
          · intro _
            refine ⟨hinside.1, ?_, ?_, ?_⟩ <;> dsimp only <;> omega

/-- All strings are inside the subject exactly when no cut of `split` begins one character before
the last one ended, and the group that is asked for takes part. -/
theorem results_inside_iff (onigurumaCompile : List UInt8 → Option Regex) (pattern : List UInt8)
    (self : Regex) (found : Match) (no : Int) :
    ((reSplit a self s maxsplit).Contained s.data.length ↔
      ∀ m, getInt a (maxsplit.getD 0) = .ok m →
        NeverOneBack 0 (cutsUpTo (cInt m) (self.reports s.data))) ∧
    ((uefiModReSplit a onigurumaCompile pattern s maxsplit).Contained s.data.length ↔
      ∀ m regex, getInt a (maxsplit.getD 0) = .ok m → onigurumaCompile pattern = some regex →
        NeverOneBack 0 (cutsUpTo (cInt m) (regex.reports s.data))) ∧
    (GroupContained found.string.data.length (matchGroup a found no) ↔
      ∀ k, getInt a no = .ok k → 0 ≤ k → found.caps[k.toNat]? ≠ some .absent) :=
  ⟨reSplit_contained_iff a s maxsplit self,
    uefiModReSplit_contained_iff a s maxsplit onigurumaCompile pattern,
    matchGroup_contained_iff a found no⟩

end Results

/-- The pattern `(x)?,` in `a,b`: the group takes no part. -/
def optionalGroup : Regex where
  reports data := if data = [0x61, 0x2C, 0x62] then [[⟨1, 2⟩, .absent]] else []
  wellFormed := by
    intro data region hregion g hg
    split at hregion
    · next heq =>
        rw [List.mem_singleton.mp hregion] at hg
        rw [heq]
        rcases List.mem_cons.mp hg with rfl | hg
        · right
          decide
        · left
          exact List.mem_singleton.mp hg
    · cases hregion

/-- What `match` finds there. -/
def optionalMatch : Match where
  string := ⟨.str, [0x61, 0x2C, 0x62]⟩
  caps := [⟨1, 2⟩, .absent]
  wellFormed := by
    intro g hg
    rcases List.mem_cons.mp hg with rfl | hg
    · right
      decide
    · left
      exact List.mem_singleton.mp hg

/-- A length of −1, and a string in front of the subject. -/
theorem absent_group_outside :
    reSplit .x64 optionalGroup ⟨.str, [0x61, 0x2C, 0x62]⟩ none = .stops .overrun [] ∧
      ¬ (reSplit .x64 optionalGroup ⟨.str, [0x61, 0x2C, 0x62]⟩ none).Contained 3 ∧
      ¬ GroupContained 3 (matchGroup .x64 optionalMatch 1) := by
  have hrun : reSplit .x64 optionalGroup ⟨.str, [0x61, 0x2C, 0x62]⟩ none = .stops .overrun [] := by
    decide
  refine ⟨hrun, ?_, ?_⟩
  · rw [hrun]
    intro h
    exact h.1 rfl
  · intro h
    have hstart := h.1
    exact absurd hstart (by decide)

end EfiLvgl.Re
