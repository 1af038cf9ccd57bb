import EfiLvgl.Uefi.Typecast

/-!
# EfiLvgl.Uefi.DottedName — names with dots

`load_obj_by_namespace` loads the components of a dotted name one after the other. The loop ends
in front of a component that fills the buffer of 256 characters, and behind one that is `None`.
`whole_name_followed_iff` says when what it returns is what the whole name leads to.
-/

namespace EfiLvgl.Uefi

/-- The components of a dotted name. -/
def components (text : Str) : List Str := text.splitOn '.'

section Lookup

variable (ns : Namespace) (noneAttr : Str → Res (Option ns.Obj))

/-- `mp_load_attr`; `noneAttr` is what it does with `None`. -/
def Namespace.attr : Option ns.Obj → Str → Res (Option ns.Obj)
  | none => noneAttr
  | some o => ns.loadAttr o

/-- Each component is loaded as an attribute of the one before it. -/
def Namespace.follow (o : Option ns.Obj) (names : List Str) : Res (Option ns.Obj) :=
  names.foldlM (ns.attr noneAttr) o

/-- The object that a whole name leads to. -/
def Namespace.wholeName : List Str → Res (Option ns.Obj)
  | [] => .ok none
  | name :: names => do ns.follow noneAttr (← ns.loadName name) names

/-- An object that is returned is the one that the whole name leads to. -/
def FollowsWhole (text : Str) : Prop :=
  ∀ o, loadObjByNamespace ns none [] text = .ok o →
    ns.wholeName noneAttr (components text) = .ok o

/-- What the rest of a name leads to; `varobj` is `None` in front of the first component. -/
def Namespace.rest (varobj : Option ns.Obj) (names : List Str) : Res (Option ns.Obj) :=
  match varobj with
  | none => ns.wholeName noneAttr names
  | some o => ns.follow noneAttr (some o) names

/-- Where the loop ends in front of a component, the components that are left lead back to what
has been reached. -/
def NeverCutShort (varobj : Option ns.Obj) : List Str → Prop
  | [] => True
  | name :: names =>
      if 256 ≤ name.length then ns.rest noneAttr varobj (name :: names) = .ok varobj
      else ∀ o, ns.load varobj name = .ok o →
        match o with
        | none => ns.follow noneAttr none names = .ok none
        | some o => NeverCutShort (some o) names

/-! ## Component by component -/

/-- `load_obj_by_namespace`, by the components of its argument. -/
def loadComponents (varobj : Option ns.Obj) : List Str → Res (Option ns.Obj)
  | [] => .ok varobj
  | name :: names =>
      if 256 ≤ name.length then .ok varobj
      else do
        match ← ns.load varobj name with
        | none => .ok none
        | some o => loadComponents (some o) names

variable {ns}

theorem loadComponents_long {name : Str} (h : 256 ≤ name.length) (varobj : Option ns.Obj)
    (names : List Str) : loadComponents ns varobj (name :: names) = .ok varobj := by
  rw [loadComponents, if_pos h]

/-- A full buffer ends the loop, whatever the component goes on with. -/
theorem loadComponents_full {name : Str} (h : 256 ≤ name.length) (varobj : Option ns.Obj)
    (text : Str) :
    loadComponents ns varobj ((components text).modifyHead (name ++ ·)) = .ok varobj := by
  rcases hsplit : components text with _ | ⟨first, names⟩
  · exact absurd hsplit (List.splitOn_ne_nil '.' text)
  · have hlong : 256 ≤ (name ++ first).length := by
      rw [List.length_append]
      omega
    rw [List.modifyHead_cons, loadComponents_long hlong]

/-- The buffer is in front of the component that is being read. -/
theorem loadObjByNamespace_eq (varobj : Option ns.Obj) (name text : Str) :
    loadObjByNamespace ns varobj name text =
      loadComponents ns varobj ((components text).modifyHead (name ++ ·)) := by
  induction text generalizing varobj name with
  | nil =>
      have hone : (components []).modifyHead (name ++ ·) = [name] := by
        rw [components, List.splitOn_nil, List.modifyHead_cons, List.append_nil]
      rw [hone, loadObjByNamespace, loadComponents]
      split
      · rfl
      · cases ns.load varobj name with
        | error e => rfl
        | ok o => cases o <;> rfl
  | cons c rest ih =>
      rw [loadObjByNamespace]
      by_cases hfull : 256 ≤ name.length
      · rw [if_pos hfull, loadComponents_full hfull]
      · rw [if_neg hfull, components, List.splitOn_cons_eq_if_modifyHead, ← components]
        by_cases hc : c = '.'
        · -- the component ends here
          have hhead : (components rest).modifyHead ([] ++ ·) = components rest := by
            cases components rest <;> rfl
          rw [if_pos (beq_iff_eq.mpr hc), List.modifyHead_cons, List.append_nil, loadComponents,
            if_neg hfull, if_neg (not_not.mpr hc)]
          cases ns.load varobj name with
          | error e => rfl
          | ok o =>
              cases o with
              | none => rfl
              | some o => exact (ih (some o) []).trans (congrArg (loadComponents ns (some o)) hhead)
        · have hnext : (name ++ ·) ∘ (List.cons c) = ((name ++ [c]) ++ · : Str → Str) := by
            funext s
            exact (List.append_assoc name [c] s).symm
          have hdot : ¬ (c == '.') = true := fun h => hc (beq_iff_eq.mp h)
          rw [if_pos hc, if_neg hdot, List.modifyHead_modifyHead, hnext, ih]

/-- The loop goes on as long as it gets to the next component. -/
theorem components_followed_iff (varobj : Option ns.Obj) (names : List Str) :
    (∀ o, loadComponents ns varobj names = .ok o → ns.rest noneAttr varobj names = .ok o) ↔
      NeverCutShort ns noneAttr varobj names := by
  induction names generalizing varobj with
  | nil =>
      refine iff_of_true ?_ trivial
      rintro o ⟨⟩
      cases varobj <;> rfl
  | cons name names ih =>
      rw [NeverCutShort, loadComponents]
      by_cases hlong : 256 ≤ name.length
      · -- what has been reached is returned, with the component left to load
        rw [if_pos hlong, if_pos hlong]
        constructor
        · intro h
          exact h varobj rfl
        · rintro h o ⟨⟩
          exact h
      · rw [if_neg hlong, if_neg hlong]
        have hrest : ns.rest noneAttr varobj (name :: names) =
            ns.load varobj name >>= fun o => ns.follow noneAttr o names := by
          cases varobj <;> rfl
        rw [hrest]
        cases ns.load varobj name with
        | error e =>
            constructor
            · rintro - o ⟨⟩
            · rintro - o ⟨⟩
        | ok o =>
            cases o with
            | none =>
                -- `None` is returned, whether or not it was the last component
                constructor
                · rintro h _ ⟨⟩
                  exact h none rfl
                · rintro h _ ⟨⟩
                  exact h none rfl
            | some o =>
                have ho := ih (some o)
                constructor
                · rintro h _ ⟨⟩
                  exact ho.mp h
                · intro h
                  exact ho.mpr (h (some o) rfl)

variable (ns) in
/-- What is returned is what the whole name leads to, unless the loop ends before the name does. -/
theorem whole_name_followed_iff (text : Str) :
    FollowsWhole ns noneAttr text ↔ NeverCutShort ns noneAttr none (components text) := by
  have hbuffer : (components text).modifyHead ([] ++ ·) = components text := by
    cases components text <;> rfl
  rw [← components_followed_iff, FollowsWhole, loadObjByNamespace_eq, hbuffer]
  rfl

end Lookup

/-- `None` has a class, and no other attributes. -/
def attrOfNone (ns : Namespace) (type : Option ns.Obj) (name : Str) : Res (Option ns.Obj) :=
  if name = "__class__".toList then .ok type
  else .error (.raise .attributeError "'NoneType' object has no such attribute")

/-- A namespace with one name, `x`, which is `None`. -/
def noneNamed : Namespace where
  Obj := Unit
  loadName := fun name =>
    if name = ['x'] then .ok none else .error (.raise .nameError "name not defined")
  loadAttr := fun _ _ => .error (.raise .attributeError "object has no such attribute")
  view := fun _ => .other

/-- `x.y` is `None` when `x` is, and so is a name of 256 characters that is not defined. -/
theorem name_cut_short :
    ¬ FollowsWhole noneNamed (attrOfNone noneNamed (some ())) ['x', '.', 'y'] ∧
      ¬ FollowsWhole noNames (attrOfNone noNames none) (List.replicate 256 'a') := by
  constructor
  · intro h
    cases h none rfl
  · intro h
    have hdot : '.' ∉ List.replicate 256 'a' := fun hmem =>
      absurd (List.eq_of_mem_replicate hmem) (by decide)
    have hone : components (List.replicate 256 'a') = [List.replicate 256 'a'] :=
      List.splitOn_eq_singleton hdot
    have hreturned : loadObjByNamespace noNames none [] (List.replicate 256 'a') = .ok none := by
      rw [loadObjByNamespace_eq, hone, List.modifyHead_cons]
      exact loadComponents_long (Nat.le_of_eq List.length_replicate.symm) none []
    have hwhole := h none hreturned
    rw [hone] at hwhole
    cases hwhole

end EfiLvgl.Uefi
