import EfiLvgl.Gc.Alloc

/-!
# EfiLvgl.Gc.Free — freeing and resizing chains

Freeing a chain, cutting it and letting it grow into the free blocks behind it change the kinds
in one way (`resizedKind`): the chain of `n` blocks becomes one of `m` blocks, or none for
`m = 0`. `object_resized` says what that does to the objects.
-/

namespace EfiLvgl.Gc.Heap

variable {L : Layout}

/-- The kinds when the chain of `n` blocks at `b` becomes one of `m` blocks. -/
def resizedKind (h : Heap L) (b n m c : Nat) : Kind :=
  if b + m ≤ c ∧ c < b + n then .free
  else if b + n ≤ c ∧ c < b + m then .tail
  else h.kind c

section Resized

variable {h h' : Heap L} {b n m : Nat}

theorem resizedKind_of_lt {c : Nat} (hc : c < b + n) (hcm : c < b + m) :
    h.resizedKind b n m c = h.kind c := by
  rw [resizedKind, if_neg (by omega), if_neg (by omega)]

theorem resizedKind_of_before {c : Nat} (hc : c < b) : h.resizedKind b n m c = h.kind c := by
  rw [resizedKind, if_neg (by omega), if_neg (by omega)]

theorem resizedKind_of_behind {c : Nat} (hc : b + n ≤ c) (hcm : b + m ≤ c) :
    h.resizedKind b n m c = h.kind c := by
  rw [resizedKind, if_neg (by omega), if_neg (by omega)]

theorem resizedKind_of_cut {c : Nat} (hc : b + m ≤ c) (hcn : c < b + n) :
    h.resizedKind b n m c = .free := if_pos ⟨hc, hcn⟩

theorem resizedKind_of_grown {c : Nat} (hc : b + n ≤ c) (hcm : c < b + m) :
    h.resizedKind b n m c = .tail := by
  rw [resizedKind, if_neg (by omega), if_pos ⟨hc, hcm⟩]

/-- An object, and the free blocks behind it that it is to take. -/
structure Room (h : Heap L) (b n m : Nat) : Prop where
  object : h.Object b n
  le : b + m ≤ L.blocks
  free : ∀ c, b + n ≤ c → c < b + m → h.kind c = .free

/-- A chain that is cut has room. -/
theorem Object.lt_of_not_room (ho : h.Object b n) (hno : ¬ h.Room b n m) : n < m := by
  by_contra hge
  have hle := ho.le
  exact hno ⟨ho, by omega, fun c hc hcm => absurd hcm (by omega)⟩

/-- Another object is not touched. -/
theorem Room.outside (hroom : h.Room b n m) {c k : Nat} (ho : h.Object c k) (hne : c ≠ b) :
    c + k ≤ b ∨ b + n ≤ c ∧ b + m ≤ c := by
  rcases ho.apart hroom.object hne with hle | hle
  · exact Or.inl hle
  · -- it would have one of the free blocks
    refine Or.inr ⟨hle, ?_⟩
    by_contra hlt
    exact ho.not_free (Nat.le_refl c) (by have := ho.pos; omega) (hroom.free c hle (by omega))

theorem tailsBehind_resized (ht : h.TailsBehind) (hroom : h.Room b n m)
    (hkind : ∀ c, c < L.blocks → h'.kind c = h.resizedKind b n m c) : h'.TailsBehind := by
  intro c hc htail
  have hpos := hroom.object.pos
  rw [hkind c hc] at htail
  by_cases hgrown : b + n ≤ c ∧ c < b + m
  · -- a block that the chain has grown by follows another one of it
    refine ⟨c - 1, by omega, ?_⟩
    rw [hkind _ (by omega)]
    by_cases hfirst : b + n ≤ c - 1
    · rw [resizedKind_of_grown hfirst (by omega)]
      exact Kind.noConfusion
    · rw [resizedKind_of_lt (by omega) (by omega)]
      exact hroom.object.not_free (by omega) (by omega)
  · by_cases hcut : b + m ≤ c ∧ c < b + n
    · rw [resizedKind_of_cut hcut.1 hcut.2] at htail
      cases htail
    · rw [resizedKind, if_neg hcut, if_neg hgrown] at htail
      obtain ⟨a, rfl, hne⟩ := ht c hc htail
      refine ⟨a, rfl, ?_⟩
      rw [hkind a (by omega), resizedKind]
      split
      · -- the block behind the chain is no tail block
        next hin =>
          have hend : a + 1 = b + n := by omega
          rw [hend] at htail hc
          exact absurd htail (hroom.object.last hc)
      · split
        · exact Kind.noConfusion
        · exact hne

/-- The object with its new length. -/
theorem object_resized_self (ht : h.TailsBehind) (hroom : h.Room b n m)
    (hkind : ∀ c, c < L.blocks → h'.kind c = h.resizedKind b n m c) (hm : 0 < m) :
    h'.Object b m := by
  have hob := hroom.object
  have hpos := hob.pos
  have hle := hroom.le
  refine ⟨?_, hm, hle, ?_, ?_⟩
  · rw [shape, hkind b (by omega), resizedKind_of_lt (by omega) (by omega)]
    exact hob.head
  · intro d hbd hdm
    rw [hkind d (by omega)]
    -- the blocks that were there, and those it has grown by
    by_cases hdn : d < b + n
    · rw [resizedKind_of_lt hdn hdm]
      exact hob.tails d hbd hdn
    · rw [resizedKind_of_grown (by omega) hdm]
  · intro hlt
    rw [hkind _ hlt]
    -- behind the chain lie the blocks that were cut off, or what lay there before
    by_cases hcut : b + m < b + n
    · rw [resizedKind_of_cut (Nat.le_refl _) hcut]
      exact Kind.noConfusion
    · rw [resizedKind_of_behind (by omega) (Nat.le_refl _)]
      intro htail
      by_cases hsame : m = n
      · rw [hsame] at htail hlt
        exact hob.last hlt htail
      · -- a tail block there would follow one of the free blocks
        obtain ⟨a, ha, hne⟩ := ht _ hlt htail
        exact hne (hroom.free a (by omega) (by omega))

/-- The other objects stay. -/
theorem object_resized_other (hroom : h.Room b n m)
    (hkind : ∀ c, c < L.blocks → h'.kind c = h.resizedKind b n m c) {c k : Nat} (hne : c ≠ b)
    (ho : h.Object c k) : h'.Object c k := by
  have hpos := hroom.object.pos
  have hok := ho.pos
  have hole := ho.le
  have hsame : ∀ d, c ≤ d → d < c + k → h'.kind d = h.kind d := by
    intro d hcd hdk
    rw [hkind d (by omega)]
    rcases hroom.outside ho hne with hbefore | ⟨hn, hm⟩
    · exact resizedKind_of_before (by omega)
    · exact resizedKind_of_behind (by omega) (by omega)
  refine ⟨?_, hok, hole, ?_, ?_⟩
  · rw [shape, hsame c (Nat.le_refl c) (by omega)]
    exact ho.head
  · intro d hcd hdk
    rw [hsame d (by omega) hdk]
    exact ho.tails d hcd hdk
  · intro hlt
    rw [hkind _ hlt, resizedKind]
    split
    · exact Kind.noConfusion
    · split
      · next hgrown =>
          -- the object would end where the free blocks lie
          rcases hroom.outside ho hne with hbefore | ⟨hn, hm⟩
          · omega
          · omega
      · exact ho.last hlt

/-- The other objects, and the one with its new length. -/
theorem object_resized (ht : h.TailsBehind) (hroom : h.Room b n m)
    (hkind : ∀ c, c < L.blocks → h'.kind c = h.resizedKind b n m c) (c k : Nat) :
    h'.Object c k ↔ c ≠ b ∧ h.Object c k ∨ c = b ∧ k = m ∧ 0 < m := by
  have hpos := hroom.object.pos
  constructor
  · intro ho'
    by_cases hcb : c = b
    · subst hcb
      have hm : 0 < m := by
        -- freed whole, the chain has no head any more
        by_contra hzero
        have hhead := ho'.head
        rw [shape, hkind c ho'.lt, resizedKind_of_cut (by omega) (by omega)] at hhead
        cases hhead
      exact Or.inr ⟨rfl, ho'.unique (object_resized_self ht hroom hkind hm), hm⟩
    · have hhead := ho'.head
      rw [shape, hkind c ho'.lt, resizedKind] at hhead
      split at hhead
      · cases hhead
      · split at hhead
        · cases hhead
        · obtain ⟨j, ho⟩ := exists_object ho'.lt hhead
          obtain rfl := ho'.unique (object_resized_other hroom hkind hcb ho)
          exact Or.inl ⟨hcb, ho⟩
  · rintro (⟨hne, ho⟩ | ⟨rfl, rfl, hm⟩)
    · exact object_resized_other hroom hkind hne ho
    · exact object_resized_self ht hroom hkind hm

end Resized

/-! ## Freeing tail blocks -/

theorem kind_anyToFrees (m : Nat) {t : Tables L} {a : Nat} (hle : a + m ≤ L.blocks) (c : Nat) :
    (anyToFrees t (List.range' a m)).kind c = if a ≤ c ∧ c < a + m then .free else t.kind c := by
  induction m generalizing t a with
  | zero =>
      rw [if_neg (by omega)]
      rfl
  | succ m ih =>
      rw [List.range'_succ, anyToFrees, ih (by omega), Tables.kind_anyToFree _ (by omega)]
      by_cases hca : c = a
      · rw [if_neg (by omega), if_pos hca, if_pos (by omega)]
      · by_cases hin : a + 1 ≤ c ∧ c < a + 1 + m
        · rw [if_pos hin, if_pos (by omega)]
        · rw [if_neg hin, if_neg hca, if_neg (by omega)]

theorem ftbGet_anyToFrees {t : Tables L} {blocks : List Nat} (hlt : ∀ b ∈ blocks, b < L.blocks)
    (c : Nat) : (anyToFrees t blocks).ftbGet c = t.ftbGet c := by
  induction blocks generalizing t with
  | nil => rfl
  | cons b blocks ih =>
      rw [List.forall_mem_cons] at hlt
      rw [anyToFrees, ih hlt.2]
      exact Tables.ftbGet_modify_atb _ (Tables.atb_lt hlt.1) _ _

/-- The loop of `gc_free` goes on to the end of the chain. -/
theorem freeChain_eq (n : Nat) {t : Tables L} {b fuel : Nat} (hfuel : n < fuel)
    (hlt : b + n < L.blocks) (htails : ∀ c, b < c → c ≤ b + n → t.kind c = .tail)
    (hlast : t.kind (b + n + 1) ≠ .tail) :
    freeChain fuel t b = some (anyToFrees t (List.range' b (n + 1))) := by
  induction n generalizing t b fuel with
  | zero =>
      obtain ⟨fuel, rfl⟩ : ∃ k, fuel = k + 1 := ⟨fuel - 1, by omega⟩
      rw [Nat.add_zero] at hlt hlast
      rw [freeChain, Tables.kind_anyToFree _ hlt, if_neg (Nat.succ_ne_self b), if_neg hlast]
      rfl
  | succ n ih =>
      obtain ⟨fuel, rfl⟩ : ∃ k, fuel = k + 1 := ⟨fuel - 1, by omega⟩
      -- freeing a block leaves the kinds behind it
      have hkind : ∀ c, b < c → (t.anyToFree b).kind c = t.kind c := by
        intro c hc
        rw [Tables.kind_anyToFree _ (by omega), if_neg (by omega)]
      rw [freeChain, hkind _ (Nat.lt_succ_self b), if_pos (htails (b + 1) (by omega) (by omega)),
        List.range'_succ, anyToFrees]
      refine ih (by omega) (by omega) ?_ ?_
      · intro c hbc hcn
        rw [hkind c (by omega)]
        exact htails c (by omega) (by omega)
      · rw [hkind _ (by omega), show b + 1 + n + 1 = b + (n + 1) + 1 by omega]
        exact hlast

/-- It does not end when only tail blocks come. -/
theorem freeChain_eq_none (fuel : Nat) {t : Tables L} {b : Nat} (hle : b + fuel ≤ L.blocks)
    (htails : ∀ c, b < c → c ≤ b + fuel → t.kind c = .tail) : freeChain fuel t b = none := by
  induction fuel generalizing t b with
  | zero => rfl
  | succ fuel ih =>
      have hkind : ∀ c, b < c → (t.anyToFree b).kind c = t.kind c := by
        intro c hc
        rw [Tables.kind_anyToFree _ (by omega), if_neg (by omega)]
      rw [freeChain, hkind _ (Nat.lt_succ_self b), if_pos (htails (b + 1) (by omega) (by omega))]
      refine ih (by omega) ?_
      intro c hbc hcn
      rw [hkind c (by omega)]
      exact htails c (by omega) (by omega)

/-! ## `gc_free` -/

/-- What freeing an object does. -/
structure Freed (h h' : Heap L) (b n : Nat) : Prop where
  object : h.Object b n
  wf : h'.WellFormed
  kinds : ∀ c, c < L.blocks → h'.kind c = h.resizedKind b n 0 c
  objects : ∀ c k, h'.Object c k ↔ h.Object c k ∧ c ≠ b
  flags : ∀ c, c < L.blocks → h'.tables.ftbGet c = (h.tables.ftbGet c && !decide (c = b))
  frame : h' = { h with tables := h'.tables, lastFreeAtbIndex := h'.lastFreeAtbIndex }

/-- The walk of `gc_free` behind the last block, where the flag of the head is cleared already. -/
def FreeLeaves (h : Heap L) (b : Nat) : Prop :=
  h.Object b (L.blocks - b) ∧ (h.tables.ftbClear b).kind L.blocks = .tail

theorem WellFormed.head_of_shape {h : Heap L} (hwf : h.WellFormed) {b : Nat} (hb : b < L.blocks)
    (hhead : h.shape b = .head) : h.kind b = .head := by
  rcases shape_eq_head.mp hhead with h | h
  · exact h
  · exact absurd h (hwf.unmarked b hb)

theorem lowerLastFree_le (h : Heap L) (b : Nat) :
    h.lowerLastFree b * blocksPerAtb ≤ b ∧
      h.lowerLastFree b * blocksPerAtb ≤ h.lastFreeAtbIndex * blocksPerAtb := by
  have hdiv := Nat.div_mul_le_self b blocksPerAtb
  rw [lowerLastFree]
  split
  · next hlt => exact ⟨hdiv, Nat.mul_le_mul_right _ (Nat.le_of_lt hlt)⟩
  · next hge =>
      have hmul := Nat.mul_le_mul_right blocksPerAtb (Nat.le_of_not_lt hge)
      exact ⟨hmul.trans hdiv, Nat.le_refl _⟩

/-- A heap whose kinds are those behind a change of one chain, and which keeps the flags of heads,
is well formed. -/
theorem wellFormed_resized {h h' : Heap L} {b n m : Nat} (hwf : h.WellFormed) (hroom : h.Room b n m)
    (hkind : ∀ c, c < L.blocks → h'.kind c = h.resizedKind b n m c)
    (hflags : ∀ c, c < L.blocks → h'.tables.ftbGet c = true →
      h.tables.ftbGet c = true ∧ (c = b → 0 < m))
    (hlast : h'.lastFreeAtbIndex = h.lastFreeAtbIndex ∧ n ≤ m ∨
      h'.lastFreeAtbIndex = h.lowerLastFree (b + m)) :
    h'.WellFormed where
  unmarked c hc := by
    rw [hkind c hc, resizedKind]
    split
    · exact Kind.noConfusion
    · split
      · exact Kind.noConfusion
      · exact hwf.unmarked c hc
  tails := tailsBehind_resized hwf.tails hroom hkind
  flags c hc hflag := by
    obtain ⟨hold, hb⟩ := hflags c hc hflag
    have hhead := hwf.flags c hc hold
    have hpos := hroom.object.pos
    rw [hkind c hc, resizedKind]
    split
    · next hcut =>
        -- a head with a flag lies in the part that is cut off only when it is the chain itself
        by_cases hcb : c = b
        · have := hb hcb
          omega
        · rw [hroom.object.tails c (by omega) hcut.2] at hhead
          cases hhead
    · split
      · next hgrown =>
          rw [hroom.free c hgrown.1 hgrown.2] at hhead
          cases hhead
      · exact hhead
  lastFree c hc hclt := by
    rw [hkind c hclt, resizedKind]
    rcases hlast with ⟨heq, hnm⟩ | heq
    · rw [heq] at hc
      rw [if_neg (by omega)]
      split
      · exact Kind.noConfusion
      · exact hwf.lastFree c hc hclt
    · rw [heq] at hc
      obtain ⟨hle, hle'⟩ := h.lowerLastFree_le (b + m)
      rw [if_neg (by omega)]
      split
      · exact Kind.noConfusion
      · exact hwf.lastFree c (by omega) hclt

section FreeHead

variable {h : Heap L} {b n : Nat}

theorem kind_ftbClear (h : Heap L) {c : Nat} (hc : c < L.blocks) :
    (h.tables.ftbClear b).kind c = h.kind c := Tables.kind_modify_ftb _ _ _ hc

/-- The loop frees the blocks of the object, unless it goes on into the flags behind the table. -/
theorem freeChain_object (ho : h.Object b n) (hleaves : ¬ h.FreeLeaves b) :
    freeChain (L.blocks - b) (h.tables.ftbClear b) b =
      some (anyToFrees (h.tables.ftbClear b) (List.range' b n)) := by
  have hpos := ho.pos
  have hle := ho.le
  have heq := freeChain_eq (n - 1) (t := h.tables.ftbClear b) (b := b)
    (show n - 1 < L.blocks - b by omega) (by omega) ?_ ?_
  · rw [heq, show n - 1 + 1 = n by omega]
  · intro c hbc hcn
    rw [kind_ftbClear h (by omega)]
    exact ho.tails c hbc (by omega)
  · rw [show b + (n - 1) + 1 = b + n by omega]
    rcases Nat.eq_or_lt_of_le hle with heq | hlt
    · -- behind the last block the flags are read
      intro htail
      rw [heq] at htail
      refine hleaves ⟨?_, htail⟩
      rw [show L.blocks - b = n by omega]
      exact ho
    · rw [kind_ftbClear h hlt]
      exact ho.last hlt

theorem kind_freed (ho : h.Object b n) {c : Nat} (hc : c < L.blocks) :
    (anyToFrees (h.tables.ftbClear b) (List.range' b n)).kind c = h.resizedKind b n 0 c := by
  rw [kind_anyToFrees n ho.le, kind_ftbClear h hc, resizedKind, Nat.add_zero]
  split
  · rfl
  · rw [if_neg (by omega)]

/-- The flag of the object is cleared, and no other. -/
theorem ftbGet_freed (ho : h.Object b n) (c : Nat) :
    (anyToFrees (h.tables.ftbClear b) (List.range' b n)).ftbGet c =
      (h.tables.ftbGet c && !decide (c = b)) := by
  have hle := ho.le
  rw [ftbGet_anyToFrees, Tables.ftbGet_ftbClear _ ho.lt]
  · by_cases hcb : c = b
    · simp [hcb]
    · simp [hcb]
  · intro d hd
    rw [List.mem_range'_1] at hd
    omega

end FreeHead

theorem gcFree_head {h : Heap L} (hwf : h.WellFormed) {b : Nat} (hb : b < L.blocks)
    (hhead : h.kind b = .head) (hlock : h.lockDepth = 0) :
    h.gcFree (L.ptrFromBlock b) = none ∧ h.FreeLeaves b ∨
      ∃ h' n, h.gcFree (L.ptrFromBlock b) = some h' ∧ Freed h h' b n ∧ ¬ h.FreeLeaves b := by
  obtain ⟨n, ho⟩ := exists_object hb (shape_eq_head.mpr (Or.inl hhead))
  have hpos := ho.pos
  have hle := ho.le
  rw [gcFree, if_neg (by omega), if_neg (Nat.ne_of_gt (L.ptrFromBlock_pos b)),
    L.blockFromPtr_ptrFromBlock, if_pos ⟨L.verifyPtr_ptrFromBlock hb, hhead⟩]
  dsimp only
  by_cases hleaves : h.FreeLeaves b
  · refine Or.inl ⟨?_, hleaves⟩
    rw [freeChain_eq_none, Option.map_none]
    · omega
    · intro c hbc hcn
      -- to the last block, and one step further
      rcases Nat.eq_or_lt_of_le (show c ≤ L.blocks by omega) with rfl | hlt
      · exact hleaves.2
      · rw [kind_ftbClear h hlt]
        exact hleaves.1.tails c hbc (by omega)
  · refine Or.inr ?_
    have hroom : h.Room b n 0 := ⟨ho, by omega, fun c hc hcb => absurd hcb (by omega)⟩
    have hkind := fun c (hc : c < L.blocks) => kind_freed ho hc
    have hflags := ftbGet_freed ho
    rw [freeChain_object ho hleaves]
    generalize anyToFrees (h.tables.ftbClear b) (List.range' b n) = T at hkind hflags ⊢
    set g : Heap L := { h with tables := T, lastFreeAtbIndex := h.lowerLastFree b }
    have hkindg : ∀ c, c < L.blocks → g.kind c = h.resizedKind b n 0 c := hkind
    refine ⟨g, n, rfl, ?_, hleaves⟩
    have hlast : h.lowerLastFree b = h.lowerLastFree (b + 0) := by rw [Nat.add_zero]
    constructor
    · exact ho
    · refine wellFormed_resized hwf hroom hkindg ?_ (Or.inr hlast)
      intro c _ hflag
      change T.ftbGet c = true at hflag
      rw [hflags c, Bool.and_eq_true, Bool.not_eq_true', decide_eq_false_iff_not] at hflag
      exact ⟨hflag.1, fun heq => absurd heq hflag.2⟩
    · exact hkindg
    · intro c k
      rw [object_resized hwf.tails hroom hkindg]
      constructor
      · rintro (⟨hne, ho⟩ | ⟨-, -, hzero⟩)
        · exact ⟨ho, hne⟩
        · exact absurd hzero (Nat.lt_irrefl 0)
      · rintro ⟨ho, hne⟩
        exact Or.inl ⟨hne, ho⟩
    · exact fun c _ => hflags c
    · rfl

/-- `gc_free` does nothing, or it frees an object. -/
theorem gcFree_run {h h' : Heap L} (hwf : h.WellFormed) {ptr : Nat}
    (hsome : h.gcFree ptr = some h') :
    (0 < h.lockDepth ∨ ptr = 0) ∧ h' = h ∨
      h.lockDepth = 0 ∧ ∃ b n, ptr = L.ptrFromBlock b ∧ Freed h h' b n := by
  by_cases hlock : 0 < h.lockDepth
  · rw [gcFree, if_pos hlock] at hsome
    exact Or.inl ⟨Or.inl hlock, (Option.some.inj hsome).symm⟩
  by_cases hnull : ptr = 0
  · rw [gcFree, if_neg hlock, if_pos hnull] at hsome
    exact Or.inl ⟨Or.inr hnull, (Option.some.inj hsome).symm⟩
  by_cases hvalid : L.verifyPtr ptr = true ∧ h.kind (L.blockFromPtr ptr) = .head
  · obtain ⟨b, hb, rfl⟩ := (L.verifyPtr_iff ptr).mp hvalid.1
    rw [L.blockFromPtr_ptrFromBlock] at hvalid
    have hdepth : h.lockDepth = 0 := by omega
    refine Or.inr ⟨hdepth, b, ?_⟩
    rcases gcFree_head hwf hb hvalid.2 hdepth with ⟨hnone, -⟩ | ⟨g, n, heq, hfreed, -⟩
    · rw [hnone] at hsome
      cases hsome
    · rw [heq] at hsome
      cases hsome
      exact ⟨n, rfl, hfreed⟩
  · rw [gcFree, if_neg hlock, if_neg hnull, if_neg hvalid] at hsome
    cases hsome

end EfiLvgl.Gc.Heap
