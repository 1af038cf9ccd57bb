import EfiLvgl.Variables.Storage

/-!
# EfiLvgl.Variables.Iteration — listing the variables

`VariableStorage.__iter__` of `uefi.py` asks the firmware for the variable behind the one that it
was given last, until the firmware raises. Its buffer has room for 128 characters, but the
firmware is told that it has 128 bytes: a name that is too long for them ends the loop in the
way the last variable does (`listing_complete_iff`).
-/

namespace EfiLvgl.Variables

open EfiLvgl.Text (unicodeToUtf8_injective)
open EfiLvgl.Uefi

namespace VariableStorage

/-! ## The generator -/

/-- What is yielded: the name, with the GUID when the storage has none. -/
inductive Item where
  | named (name guid : PyObj)
  | name (name : PyObj)

section Generator

variable {a : Arch} (env : Env a) (S : VariableStorage)

/-- The text of the GUID of zeros. -/
def zeroGuid : List UInt8 :=
  List.replicate 8 48 ++ [45] ++ List.replicate 4 48 ++ [45] ++ List.replicate 4 48 ++ [45] ++
    List.replicate 4 48 ++ [45] ++ List.replicate 12 48

/-- The objects of an iteration: the size of the name, the name, which is empty at first, and the
GUID. -/
def iterObjects : Op a (Mem × Mem × Mem) := do
  let nameSize ← memNew env ['N']
  let name ← memNew env ['1', '2', '8', 'u']
  let guid ← guidNew env zeroGuid
  memStore env name .none (.str false [] .stop)
  pure (nameSize, name, guid)

/-- What is yielded for the variable that the firmware has given. -/
def yieldItem (name guid : Mem) : Op a (Option Item) :=
  if S.vendorGuid = [] then do
    let n ← memLoad env name .none
    let g ← memLoad env guid .none
    pure (some (.named n g))
  else do
    match ← memLoad env guid .none with
    | .str g =>
        if S.vendorGuid = g then do
          let n ← memLoad env name .none
          pure (some (.name n))
        else pure none
    | _ => pure none

/-- A turn of the loop, and what it yields. -/
def turn (nameSize name guid : Mem) : Op a (Option Item) := do
  memStore env nameSize .none (.int (memLen name))
  rtGetNextVariableName env nameSize name guid
  yieldItem env S name guid

/-- A turn in its `try`; nothing comes out when the loop ends. -/
def nextTurn (nameSize name guid : Mem) : Op a (Option (Option Item)) :=
  tryCatch (do
    let item ← turn env S nameSize name guid
    pure (some item)) fun
    | .efistatus _ => pure none
    | e => throw e

/-- The turns of the loop, and what a script does with each item before it asks for the next. -/
def iterLoop (body : Item → Op a Unit) (nameSize name guid : Mem) : Nat → Op a (List Item)
  | 0 => throw (.stop .fuel)
  | fuel + 1 => do
      match ← nextTurn env S nameSize name guid with
      | none => pure []
      | some none => iterLoop body nameSize name guid fuel
      | some (some item) => do
          body item
          let items ← iterLoop body nameSize name guid fuel
          pure (item :: items)

/-- `for item in S: body(item)`: the items, in turn. -/
def forEach (body : Item → Op a Unit) (fuel : Nat) : Op a (List Item) := do
  let (nameSize, name, guid) ← iterObjects env
  let items ← iterLoop env S body nameSize name guid fuel
  memFree name
  memFree nameSize
  memFree guid
  pure items

end Generator

/-! ## What there is to list -/

/-- The variables that a storage is for: all, or those of its vendor. -/
def Listed (S : VariableStorage) (v : Variable) : Prop :=
  S.vendorGuid = [] ∨ (guidOfText S.vendorGuid).map Subtype.val = some v.guid

instance (S : VariableStorage) : DecidablePred (Listed S) :=
  fun v => inferInstanceAs (Decidable (_ ∨ (guidOfText S.vendorGuid).map Subtype.val = some v.guid))

/-- The item for a variable. -/
def item (S : VariableStorage) (v : Variable) : Item :=
  if S.vendorGuid = [] then .named (.str (unicodeToUtf8 v.name)) (.str (textOfGuid v.guid))
  else .name (.str (unicodeToUtf8 v.name))

/-- The items for all variables that a storage is for. -/
def listing (S : VariableStorage) (vars : List Variable) : List Item :=
  (vars.filter fun v => Listed S v).map S.item

/-- A name with its terminator fits into 128 bytes. -/
def nameFits (v : Variable) : Bool := (v.name.length + 1) * 2 ≤ 128

/-- No variable that the storage is for stands at or behind one whose name does not fit, in the
order in which the firmware gives them. -/
def NamesFit (S : VariableStorage) (vars : List Variable) : Prop :=
  ∀ v ∈ vars.dropWhile nameFits, ¬ Listed S v

/-- Variables as the firmware keeps them: no two have the same name and GUID, names are not empty
and have no NUL, and a GUID has 16 bytes. -/
structure VarStore (vars : List Variable) : Prop where
  nodup : (vars.map Variable.key).Nodup
  name_ne_nil : ∀ v ∈ vars, v.name ≠ []
  name_ne_zero : ∀ v ∈ vars, ∀ u ∈ v.name, u ≠ 0
  guid_len : ∀ v ∈ vars, v.guid.length = 16

/-- The libraries read and print GUIDs in the registry format. -/
structure GuidLib {a : Arch} (env : Env a) : Prop where
  parse : env.base.asciiStrToGuid = guidOfText
  print : ∀ g, g.length = 16 → env.lib.guidToString g = textOfGuid g

/-- What a script does with an item changes no variable, and no block that it has not taken
itself; `base` is what it rests on, and `E` how it may raise. -/
def LeavesAlone {a : Arch} (vars : List Variable) (base : List (Block × List UInt8))
    (body : Item → Op a Unit) (E : Exc → World a → Prop) : Prop :=
  ∀ item w l, w.vars = vars → w.heap.Owns (l ++ base) →
    Wp (body item) w (fun _ w' => w'.vars = vars ∧ w'.heap.Owns (l ++ base)) E

/-! ## Listings -/

section Listings

variable {S : VariableStorage} {vars vs : List Variable} {v : Variable}

/-- The variables behind a variable of a store. -/
theorem following_append {pre post : List Variable}
    (hnodup : ((pre ++ v :: post).map Variable.key).Nodup) :
    following v.key (pre ++ v :: post) = post := by
  induction pre with
  | nil => exact if_pos rfl
  | cons u pre ih =>
      rw [List.cons_append, List.map_cons, List.nodup_cons] at hnodup
      have hne : u.key ≠ v.key := by
        intro heq
        refine hnodup.1 (heq ▸ List.mem_map_of_mem ?_)
        exact List.mem_append_right _ List.mem_cons_self
      rw [List.cons_append, following, if_neg hne]
      exact ih hnodup.2

/-- A vendor's text is that of its GUID. -/
theorem listed_iff {text : List UInt8} (hg : v.guid.length = 16) :
    Listed (.new text) v ↔
      (VariableStorage.new text).vendorGuid = [] ∨
        (VariableStorage.new text).vendorGuid = textOfGuid v.guid := by
  refine or_congr_right ?_
  constructor
  · intro h
    rcases Option.map_eq_some_iff.mp h with ⟨g, hguid, hval⟩
    rw [← hval, textOfGuid_guidOfText hguid]
    exact (upper_upper text).symm
  · intro h
    rw [h, guidOfText_textOfGuid hg]
    rfl

theorem listing_append : S.listing (vars ++ vs) = S.listing vars ++ S.listing vs := by
  unfold listing
  rw [List.filter_append, List.map_append]

theorem listing_cons_of_listed (h : Listed S v) : S.listing (v :: vs) = S.item v :: S.listing vs := by
  unfold listing
  rw [List.filter_cons_of_pos (p := fun v => Listed S v) (decide_eq_true h), List.map_cons]

theorem listing_cons_of_not_listed (h : ¬ Listed S v) : S.listing (v :: vs) = S.listing vs := by
  unfold listing
  rw [List.filter_cons_of_neg (p := fun v => Listed S v) (by simpa using h)]

theorem listing_eq_nil : S.listing vars = [] ↔ ∀ v ∈ vars, ¬ Listed S v := by
  unfold listing
  rw [List.map_eq_nil_iff, List.filter_eq_nil_iff]
  simp only [decide_eq_true_eq]

/-- What comes before the first name that does not fit is all when there is nothing behind it. -/
theorem perm_listing_iff :
    (S.listing (vars.takeWhile nameFits)).Perm (S.listing vars) ↔ NamesFit S vars := by
  have hsplit : S.listing vars =
      S.listing (vars.takeWhile nameFits) ++ S.listing (vars.dropWhile nameFits) := by
    rw [← listing_append, List.takeWhile_append_dropWhile]
  unfold NamesFit
  rw [← listing_eq_nil]
  constructor
  · intro h
    have hlen := h.length_eq
    rw [hsplit, List.length_append] at hlen
    exact List.length_eq_zero_iff.mp (by omega)
  · intro h
    rw [hsplit, h, List.append_nil]

/-- Items tell variables apart. -/
theorem key_of_item {u : Variable} (hvars : VarStore vars) (hu : u ∈ vars) (hv : v ∈ vars)
    (hlu : Listed S u) (hlv : Listed S v) (h : S.item u = S.item v) : u.key = v.key := by
  unfold item at h
  unfold Variable.key
  by_cases hall : S.vendorGuid = []
  · rw [if_pos hall, if_pos hall] at h
    have hname := unicodeToUtf8_injective (PyObj.str.inj (Item.named.inj h).1)
    have htext := PyObj.str.inj (Item.named.inj h).2
    have hguid := guidOfText_textOfGuid (hvars.guid_len u hu)
    rw [htext, guidOfText_textOfGuid (hvars.guid_len v hv)] at hguid
    rw [hname, ← Subtype.mk.inj (Option.some.inj hguid)]
  · rw [if_neg hall, if_neg hall] at h
    have hname := unicodeToUtf8_injective (PyObj.str.inj (Item.name.inj h))
    have hguid := hlu.resolve_left hall
    rw [hlv.resolve_left hall] at hguid
    rw [hname, Option.some.inj hguid]

/-- No variable is listed twice. -/
theorem nodup_listing (hvars : VarStore vars) : (S.listing vars).Nodup := by
  have hnodup := hvars.nodup.of_map
  refine List.Nodup.map_on ?_ (hnodup.filter _)
  intro u hu v hv h
  rw [List.mem_filter, decide_eq_true_eq] at hu hv
  exact List.inj_on_of_nodup_map hvars.nodup hu.1 hv.1
    (key_of_item hvars hu.1 hv.1 hu.2 hv.2 h)

end Listings

/-! ## Turns -/

/-- `post` is what is behind a key, and all variables while the key is empty. -/
def Behind (vars : List Variable) (k : VarKey) (post : List Variable) : Prop :=
  (k.name = [] ∧ post = vars) ∨ ∃ pre v, vars = pre ++ v :: post ∧ v.key = k

section Behind

variable {vars post : List Variable} {k : VarKey}

theorem Behind.subset (h : Behind vars k post) : ∀ v ∈ post, v ∈ vars := by
  intro v hv
  rcases h with ⟨_, rfl⟩ | ⟨pre, u, rfl, _⟩
  · exact hv
  · exact List.mem_append_right _ (List.mem_cons_of_mem _ hv)

/-- The key of a variable is not empty. -/
theorem Behind.named {pre : List Variable} {v : Variable} (hvars : VarStore vars)
    (hsplit : vars = pre ++ v :: post) : v ∈ vars ∧ v.key.name ≠ [] := by
  have hmem : v ∈ vars := by
    rw [hsplit]
    exact List.mem_append_right _ List.mem_cons_self
  exact ⟨hmem, hvars.name_ne_nil v hmem⟩

theorem Behind.rest (hvars : VarStore vars) (h : Behind vars k post) :
    (if k.name = [] then vars else following k vars) = post := by
  rcases h with ⟨hempty, rfl⟩ | ⟨pre, v, hsplit, rfl⟩
  · exact if_pos hempty
  · rw [if_neg (Behind.named hvars hsplit).2]
    have hnodup := hvars.nodup
    rw [hsplit] at hnodup ⊢
    exact following_append hnodup

theorem Behind.known (hvars : VarStore vars) (h : Behind vars k post) (hk : k.name ≠ []) :
    lookup vars k ≠ none := by
  rcases h with ⟨hempty, _⟩ | ⟨pre, v, hsplit, rfl⟩
  · exact absurd hempty hk
  · intro hnone
    have hnot := List.find?_eq_none.mp hnone v (Behind.named hvars hsplit).1
    simp at hnot

theorem Behind.name_ne_zero (hvars : VarStore vars) (h : Behind vars k post) :
    ∀ u ∈ k.name, u ≠ 0 := by
  rcases h with ⟨hempty, _⟩ | ⟨pre, v, hsplit, rfl⟩
  · rw [hempty]
    exact List.forall_mem_nil _
  · exact hvars.name_ne_zero v (Behind.named hvars hsplit).1

theorem Behind.next {v : Variable} (h : Behind vars k (v :: post)) : Behind vars v.key post := by
  rcases h with ⟨_, hvars⟩ | ⟨pre, u, hsplit, _⟩
  · exact .inr ⟨[], v, hvars.symm, rfl⟩
  · exact .inr ⟨pre ++ [u], v, by rw [hsplit, List.append_assoc]; rfl, rfl⟩

end Behind

/-- The blocks of an iteration. -/
def iterBlocks (a : Arch) (ps pn pg : Nat) (x : List UInt8) (k : VarKey) (rest : List UInt8) :
    List (Block × List UInt8) :=
  (arrayBlock a 'N' ps 1, x) :: keyBlocks a pn 128 pg k rest

/-- What a turn yields for a variable. -/
def yielded (S : VariableStorage) (v : Variable) : Option Item :=
  if Listed S v then some (S.item v) else none

section Turns

variable {a : Arch} {env : Env a} {text : List UInt8} {w : World a} {ps pn pg : Nat}
  {k : VarKey} {x rest : List UInt8} {l : List (Block × List UInt8)}

/-- The items of a variable that the firmware has given. -/
theorem wp_yield {v : Variable} {Q : Option Item → World a → Prop} {E : Exc → World a → Prop}
    (hlib : GuidLib env) (hvars : VarStore w.vars) (hv : v ∈ w.vars)
    (hown : w.heap.Owns (iterBlocks a ps pn pg x v.key rest ++ l))
    (hok : Q (yielded (.new text) v) w) :
    Wp (yieldItem env (.new text) (arrayObj a 'u' pn 128) (efiGuidNew pg)) w Q E := by
  have hlen := hvars.guid_len v hv
  have hprint := hlib.print v.guid hlen
  have hlisted : Listed (.new text) v ↔ (VariableStorage.new text).vendorGuid = [] ∨
      (VariableStorage.new text).vendorGuid = textOfGuid v.guid := listed_iff hlen
  have hname := hown.holds (arrayBlock a 'u' pn 128, unicodeBytes v.name ++ rest)
    (List.mem_append_left _ (by simp [iterBlocks, keyBlocks, Variable.key]))
  have hguid := hown.holds (⟨pg, 16⟩, v.guid)
    (List.mem_append_left _ (by simp [iterBlocks, keyBlocks, Variable.key]))
  have hloadName : ∀ {Q : PyObj → World a → Prop}, Q (.str (unicodeToUtf8 v.name)) w →
      Wp (memLoad env (arrayObj a 'u' pn 128) .none) w Q E :=
    wp_memLoad_text hname (hvars.name_ne_zero v hv)
  have hloadGuid : ∀ {Q : PyObj → World a → Prop}, Q (.str (textOfGuid v.guid)) w →
      Wp (memLoad env (efiGuidNew pg) .none) w Q E := by
    intro Q hq
    refine wp_memLoad_guid hguid ?_ ?_
    · rw [hprint, length_textOfGuid hlen]
    · rw [hprint]
      exact hq
  unfold yielded item at hok
  unfold yieldItem
  -- without a GUID every variable is listed, with its own GUID beside the name
  by_cases hall : (VariableStorage.new text).vendorGuid = []
  · rw [if_pos (hlisted.mpr (.inl hall)), if_pos hall] at hok
    rw [if_pos hall]
    exact wp_bind (hloadName (wp_bind (hloadGuid (wp_pure hok))))
  · rw [if_neg hall] at hok ⊢
    refine wp_bind (hloadGuid ?_)
    dsimp only
    by_cases hmine : (VariableStorage.new text).vendorGuid = textOfGuid v.guid
    · rw [if_pos (hlisted.mpr (.inr hmine))] at hok
      rw [if_pos hmine]
      exact wp_bind (hloadName (wp_pure hok))
    · have hnot : ¬ Listed (.new text) v := fun h => (hlisted.mp h).elim hall hmine
      rw [if_neg hnot] at hok
      rw [if_neg hmine]
      exact wp_pure hok

/-- A turn comes to an end of the loop, or to the variable behind. -/
theorem wp_nextTurn {post : List Variable} {Q : Option (Option Item) → World a → Prop}
    {E : Exc → World a → Prop} (hlib : GuidLib env) (hvars : VarStore w.vars)
    (hbehind : Behind w.vars k post) (hown : w.heap.Owns (iterBlocks a ps pn pg x k rest ++ l))
    (hend : ∀ x' heap, post.takeWhile nameFits = [] →
      heap.Owns (iterBlocks a ps pn pg x' k rest ++ l) → Q none { w with heap := heap })
    (hnext : ∀ v vs x' rest' heap, post = v :: vs → nameFits v = true →
      heap.Owns (iterBlocks a ps pn pg x' v.key rest' ++ l) →
      Q (some (yielded (.new text) v)) { w with heap := heap }) :
    Wp (nextTurn env (.new text) (arrayObj a 'N' ps 1) (arrayObj a 'u' pn 128) (efiGuidNew pg)) w
      Q E := by
  have hword := a.word_large
  have hlen : memLen (arrayObj a 'u' pn 128) = 128 :=
    memLen_arrayObj (Nat.succ_pos 1) (show 2 * 128 < a.word by omega)
  unfold nextTurn turn
  rw [hlen]
  refine wp_tryCatch (wp_bind (wp_bind (wp_memStore_word (hown.holds _ List.mem_cons_self) ?_)))
  intro heap hsize
  have hasked : heap.Owns ((arrayBlock a 'N' ps 1, wordBytes a 128) ::
      (keyBlocks a pn 128 pg k rest ++ l)) := hown.fill_head hsize
  refine wp_bind (wp_rtGetNextVariableName (wp_getNextVariableName hasked
    (hbehind.name_ne_zero hvars) (hbehind.known hvars) (by omega) (by omega)
    (hbehind.rest hvars) (fun v hv => hvars.guid_len v (hbehind.subset v hv)) ?_ ?_ ?_))
  · rintro rfl
    exact wp_raise (.inr rfl) (wp_pure (hend _ heap rfl hasked))
  · rintro v vs heap' rfl hlong hown'
    -- a name that is too long ends the loop like the end of the variables
    have hfit : nameFits v = false := decide_eq_false (by omega)
    refine wp_raise (.inl rfl) (wp_pure (hend _ heap' ?_ hown'))
    rw [List.takeWhile_cons_of_neg (by rw [hfit]; exact Bool.false_ne_true)]
  · rintro v vs rest' heap' rfl hshort hown'
    refine wp_raise_success (wp_yield hlib hvars (hbehind.subset v List.mem_cons_self) hown' ?_)
    exact wp_pure (hnext v vs _ rest' heap' rfl (decide_eq_true hshort) hown')

end Turns

/-! ## Iterations -/

section Iterations

variable {a : Arch} {env : Env a} {text : List UInt8} {vars : List Variable}
  {base : List (Block × List UInt8)} {body : Item → Op a Unit} {E : Exc → World a → Prop}

/-- The loop yields the items of the variables before the first name that does not fit. The
induction is on the turns that are left, of which there are more than variables. -/
theorem wp_iterLoop {ps pn pg fuel : Nat} (hlib : GuidLib env) (hvars : VarStore vars)
    (hbody : LeavesAlone vars base body E) {w : World a} {k : VarKey} {x rest : List UInt8}
    {post : List Variable} (hw : w.vars = vars) (hbehind : Behind vars k post)
    (hown : w.heap.Owns (iterBlocks a ps pn pg x k rest ++ base)) (hfuel : post.length < fuel) :
    Wp (iterLoop env (.new text) body (arrayObj a 'N' ps 1) (arrayObj a 'u' pn 128)
      (efiGuidNew pg) fuel) w
      (fun items w' => items = (VariableStorage.new text).listing (post.takeWhile nameFits) ∧
        w'.vars = vars ∧ ∃ x k rest, w'.heap.Owns (iterBlocks a ps pn pg x k rest ++ base)) E := by
  induction fuel generalizing w k x rest post with
  | zero => cases hfuel
  | succ fuel ih =>
      unfold iterLoop
      refine wp_bind (wp_nextTurn hlib (hw ▸ hvars) (hw ▸ hbehind) hown ?_ ?_)
      · intro x' heap hnone hown'
        refine wp_pure ⟨?_, hw, x', k, rest, hown'⟩
        -- the firmware has raised, and the loop ends
        rw [hnone]
        rfl
      · rintro v vs x' rest' heap rfl hfit hown'
        have hlt : vs.length < fuel := Nat.lt_of_succ_lt_succ hfuel
        rw [List.takeWhile_cons_of_pos hfit]
        unfold yielded
        by_cases hlisted : Listed (.new text) v
        · rw [if_pos hlisted, listing_cons_of_listed hlisted]
          -- the body runs between two turns, and finds the blocks of the iteration as they are
          refine wp_bind ((hbody _ { w with heap := heap } _ hw hown').mono ?_ fun _ _ h => h)
          rintro _ w₁ ⟨hw₁, hown₁⟩
          refine wp_bind ((ih hw₁ hbehind.next hown₁ hlt).mono ?_ fun _ _ h => h)
          rintro items w₂ ⟨rfl, hleft⟩
          exact wp_pure ⟨rfl, hleft⟩
        · rw [if_neg hlisted, listing_cons_of_not_listed hlisted]
          exact ih hw hbehind.next hown' hlt

/-- The objects of an iteration are new, and no variable is named in them. -/
theorem wp_iterObjects {w : World a} {Q : Mem × Mem × Mem → World a → Prop}
    {E : Exc → World a → Prop} (hlib : GuidLib env) (hown : w.heap.Owns base)
    (hok : ∀ ps pn pg x g rest heap, heap.Owns (iterBlocks a ps pn pg x ⟨[], g⟩ rest ++ base) →
      Q (arrayObj a 'N' ps 1, arrayObj a 'u' pn 128, efiGuidNew pg) { w with heap := heap })
    (hno : ∀ heap, E .noMemory { w with heap := heap }) : Wp (iterObjects env) w Q E := by
  have hword := a.word_large
  have hcount : repeatCount a (['1', '2', '8'] ++ ['u']) = 128 := by cases a <;> rfl
  have hdigits : ∀ d ∈ ['1', '2', '8'], d.isDigit = true := by simp
  have htwo : typeSize a 'u' = 2 := rfl
  have hzero : (guidOfText zeroGuid).isSome = true := by decide +kernel
  rcases Option.isSome_iff_exists.mp hzero with ⟨g, hg⟩
  rw [← hlib.parse] at hg
  unfold iterObjects
  refine wp_bind (wp_memNew_word ?_ fun _ => hno _)
  intro ps heap hsize
  refine wp_bind (wp_memNew hdigits rfl hcount (by rw [htwo]; omega) (by rw [htwo]; omega) ?_
    fun _ => hno _)
  intro pn heap' hname
  refine wp_bind (wp_guidNew (by decide) hg ?_ fun _ => hno _)
  intro pg heap'' hguid
  have hown' := ((hown.take hsize).take hname).take hguid
  -- the name starts empty, where GetNextVariableName begins
  have hempty := hown'.holds (arrayBlock a 'u' pn 128, List.replicate (typeSize a 'u' * 128) 0)
    (by simp)
  refine wp_bind (wp_memStore_text (s := []) hempty (by decide) ?_)
  intro heap₃ htext
  have hown₃ := hown'.fill_second htext
  exact wp_pure (hok ps pn pg _ g.val _ heap₃ (hown₃.perm (@List.perm_middle _ _ [_, _] base)))

/-- An iteration yields the items of the variables before the first name that does not fit, and
gives its objects back. -/
theorem wp_forEach {w : World a} {fuel : Nat} (hlib : GuidLib env) (hvars : VarStore w.vars)
    (hown : w.heap.Owns base) (hbody : LeavesAlone w.vars base body E)
    (hfuel : w.vars.length < fuel) :
    Wp (forEach env (.new text) body fuel) w
      (fun items w' => items = (VariableStorage.new text).listing (w.vars.takeWhile nameFits) ∧
        w'.vars = w.vars ∧ w'.heap.Owns base)
      fun e w' => e = .noMemory ∨ E e w' := by
  unfold forEach
  refine wp_bind (wp_iterObjects hlib hown ?_ fun _ => .inl rfl)
  intro ps pn pg x g rest heap hobjects
  refine wp_bind ((wp_iterLoop (w := { w with heap := heap }) hlib hvars hbody rfl
    (.inl ⟨rfl, rfl⟩) hobjects hfuel).mono ?_ fun _ _ h => .inr h)
  rintro items w₁ ⟨rfl, hw₁, x', k, rest', hown₁⟩
  have haddr : ∀ b ∈ (iterBlocks a ps pn pg x' k rest').map Prod.fst, 0 < b.addr := by
    intro b hb
    rcases List.mem_map.mp hb with ⟨p, hp, rfl⟩
    exact (w₁.heap.proper _ (hown₁.holds p (List.mem_append_left _ hp)).1).addr_pos
  have hpn : 0 < pn := haddr (arrayBlock a 'u' pn 128) (by simp [iterBlocks, keyBlocks])
  have hps : 0 < ps := haddr (arrayBlock a 'N' ps 1) (by simp [iterBlocks])
  have hpg : 0 < pg := haddr ⟨pg, 16⟩ (by simp [iterBlocks, keyBlocks])
  -- the name is given back first
  have hown₂ := (hown₁.perm (@List.perm_middle _ _ [_, _] base)).free_head
  have hown₃ := hown₂.free_head
  have hown₄ := hown₃.free_head
  exact wp_bind (wp_memFree hpn (wp_bind (wp_memFree hps (wp_bind (wp_memFree hpg
    (wp_pure ⟨rfl, hw₁, hown₄⟩))))))

/-- Whatever a script does with the items, no variable is yielded twice, and all variables of the
storage are if and only if no long name stands in the way. -/
theorem listing_complete_iff {w : World a} {fuel : Nat} (hlib : GuidLib env)
    (hvars : VarStore w.vars) (hown : w.heap.Owns base) (hbody : LeavesAlone w.vars base body E)
    (hfuel : w.vars.length < fuel) :
    Wp (forEach env (.new text) body fuel) w
      (fun items w' => w'.vars = w.vars ∧ w'.heap.Owns base ∧ items.Nodup ∧
        (items.Perm ((VariableStorage.new text).listing w.vars) ↔
          NamesFit (.new text) w.vars))
      fun e w' => e = .noMemory ∨ E e w' := by
  refine (wp_forEach hlib hvars hown hbody hfuel).mono ?_ fun _ _ h => h
  rintro items w' ⟨rfl, hw', hown'⟩
  have hnodup := nodup_listing (S := .new text) hvars
  refine ⟨hw', hown', ?_, perm_listing_iff⟩
  have hsub : (w.vars.takeWhile nameFits).Sublist w.vars := List.takeWhile_sublist _
  exact hnodup.sublist ((hsub.filter _).map _)

end Iterations

/-! ## Two stores -/

theorem scriptEnv_guidLib : GuidLib scriptEnv := ⟨rfl, fun _ _ => rfl⟩

/-- The variable `Boot`. -/
def bootVariable : Variable := ⟨bootKey.var.name, bootKey.var.guid, [1]⟩

/-- A variable with a name of 64 characters. -/
def longVariable : Variable := ⟨List.replicate 64 65, bootKey.var.guid, [1]⟩

theorem bootVariable_store : VarStore [bootVariable] where
  nodup := List.nodup_singleton _
  name_ne_nil := List.forall_mem_singleton.mpr (by decide)
  name_ne_zero := List.forall_mem_singleton.mpr bootKey.name_ne_zero
  guid_len := List.forall_mem_singleton.mpr rfl

theorem longVariable_store : VarStore [longVariable, bootVariable] where
  nodup := by decide
  name_ne_nil := by decide
  name_ne_zero := List.forall_mem_cons.mpr ⟨by simp [longVariable], bootVariable_store.name_ne_zero⟩
  guid_len := by decide

/-- A script that only lists. -/
theorem leavesAlone_pure {a : Arch} (vars : List Variable) (base : List (Block × List UInt8)) :
    LeavesAlone (a := a) vars base (fun _ => pure ()) fun _ _ => False :=
  fun _ _ _ hvars hown => wp_pure ⟨hvars, hown⟩

/-- A store of one variable is listed, and nothing stays allocated. -/
theorem listing_complete_boot :
    ∃ items w', forEach scriptEnv (.new []) (fun _ => pure ()) 2
        { scriptWorld with vars := [bootVariable] } = .ok items w' ∧
      items.Perm ((VariableStorage.new []).listing [bootVariable]) ∧
      w'.vars = [bootVariable] ∧ w'.heap.Owns (nullPart scriptEnv) := by
  have hwp : Wp (forEach scriptEnv (.new []) (fun _ => pure ()) 2)
      { scriptWorld with vars := [bootVariable] } _ _ :=
    listing_complete_iff scriptEnv_guidLib bootVariable_store scriptWorld_ok.owns
      (leavesAlone_pure _ _) (Nat.lt_succ_self 1)
  have hsome : (match forEach scriptEnv (.new []) (fun _ => pure ()) 2
      { scriptWorld with vars := [bootVariable] } with
    | .ok _ _ => true
    | .error _ _ => false) = true := by
    decide +kernel
  rw [Wp] at hwp
  split at hsome
  · next items w' heq =>
      rw [heq] at hwp
      rcases hwp with ⟨hvars, hown, -, hperm⟩
      have hfit : NamesFit (.new []) [bootVariable] := by
        intro v hv
        rw [show [bootVariable].dropWhile nameFits = [] by decide] at hv
        cases hv
      exact ⟨items, w', heq, hperm.mpr hfit, hvars, hown⟩
  · cases hsome

/-- A name of 64 characters ends an iteration at once: neither its variable nor the one behind it
is yielded. -/
theorem long_name_ends_listing :
    VarStore [longVariable, bootVariable] ∧
      ((VariableStorage.new []).listing [longVariable, bootVariable]).length = 2 ∧
      ∃ w, forEach scriptEnv (.new []) (fun _ => pure ()) 3
        { scriptWorld with vars := [longVariable, bootVariable] } = .ok [] w := by
  refine ⟨longVariable_store, by decide, ?_⟩
  have hnone : (match forEach scriptEnv (.new []) (fun _ => pure ()) 3
      { scriptWorld with vars := [longVariable, bootVariable] } with
    | .ok items _ => items.isEmpty
    | .error _ _ => false) = true := by
    decide +kernel
  split at hnone
  · next items w heq =>
      rw [List.isEmpty_iff.mp hnone] at heq
      exact ⟨w, heq⟩
  · cases hnone

end VariableStorage

end EfiLvgl.Variables
