import EfiLvgl.Gc.Mark

/-!
# EfiLvgl.Gc.Sweep — sweeping, and a whole collection

`gc_sweep` goes over the blocks with one flag, whether the tail blocks it meets belong to a head
that it has freed. `Sweeping` is its invariant. A whole collection (`gcCollect_run`) keeps the
objects that the roots reach, whatever the size of the mark stack is, and runs the finalisers of
those that it frees, from the lowest address to the highest.
-/

namespace EfiLvgl.Gc.Heap

open EfiLvgl.Reach

variable {L : Layout}

/-- The block belongs to a marked head. -/
def kept (h : Heap L) : Nat → Bool
  | 0 => h.kind 0 == .mark
  | b + 1 =>
      match h.kind (b + 1) with
      | .mark => true
      | .tail => kept h b
      | .head => false
      | .free => false

theorem kept_of_mark {h : Heap L} {b : Nat} (hb : h.kind b = .mark) : h.kept b = true := by
  cases b with
  | zero => simp [kept, hb]
  | succ b => simp [kept, hb]

theorem kept_of_head {h : Heap L} {b : Nat} (hb : h.kind b = .head) : h.kept b = false := by
  cases b with
  | zero => simp [kept, hb]
  | succ b => simp [kept, hb]

theorem kept_of_free {h : Heap L} {b : Nat} (hb : h.kind b = .free) : h.kept b = false := by
  cases b with
  | zero => simp [kept, hb]
  | succ b => simp [kept, hb]

theorem kept_of_tail {h : Heap L} {b : Nat} (hb : h.kind (b + 1) = .tail) :
    h.kept (b + 1) = h.kept b := by
  simp [kept, hb]

/-- All blocks of an object are kept, or none, as its head is marked or not. -/
theorem Object.kept {h : Heap L} {b n c : Nat} (ho : h.Object b n) (hbc : b ≤ c) (hcn : c < b + n) :
    h.kept c = true ↔ h.kind b = .mark := by
  induction c, hbc using Nat.le_induction with
  | base =>
      constructor
      · intro hkept
        rcases shape_eq_head.mp ho.head with hhead | hmark
        · rw [kept_of_head hhead] at hkept
          cases hkept
        · exact hmark
      · exact kept_of_mark
  | succ c hbc ih =>
      rw [kept_of_tail (ho.tails (c + 1) (by omega) hcn)]
      exact ih (by omega)

/-- The `__del__` methods of the objects in some blocks, one after the other. -/
def runFinalisers (w : World) (blocks : List Nat) (words : Nat → Nat) : Nat → Nat :=
  blocks.foldl (fun words b => if words (b * wordsPerBlock) ≠ 0 then w.del b words else words) words

/-- The heads that are freed with a finaliser, up to a block. -/
def finalised (h : Heap L) (k : Nat) : List Nat :=
  (List.range k).filter fun b => decide (h.kind b = .head ∧ h.tables.ftbGet b = true)

/-- The number of heads that are freed, up to a block. -/
def freedHeads (h : Heap L) (k : Nat) : Nat :=
  (List.range k).countP fun b => decide (h.kind b = .head)

theorem finalised_succ_of_not {h : Heap L} {k : Nat}
    (hnot : ¬ (h.kind k = .head ∧ h.tables.ftbGet k = true)) :
    h.finalised (k + 1) = h.finalised k := by
  rw [finalised, List.range_succ, List.filter_append, List.filter_singleton,
    decide_eq_false hnot, cond_false, List.append_nil, finalised]

theorem finalised_succ_of {h : Heap L} {k : Nat} (hhead : h.kind k = .head)
    (hflag : h.tables.ftbGet k = true) : h.finalised (k + 1) = h.finalised k ++ [k] := by
  rw [finalised, List.range_succ, List.filter_append, List.filter_singleton,
    decide_eq_true ⟨hhead, hflag⟩, cond_true, finalised]

theorem freedHeads_succ (h : Heap L) (k : Nat) :
    h.freedHeads (k + 1) = h.freedHeads k + if h.kind k = .head then 1 else 0 := by
  rw [freedHeads, List.range_succ, List.countP_append, List.countP_singleton, freedHeads]
  simp

/-- What the loop of `gc_sweep` has come to before it looks at block `k`. -/
structure Sweeping (w : World) (h₀ h : Heap L) (k : Nat) (freeTail : Bool) : Prop where
  frame : h = { h₀ with tables := h.tables, words := h.words, collected := h.collected }
  swept : ∀ c, c < k → h.kind c = if h₀.kept c then h₀.shape c else .free
  rest : ∀ c, k ≤ c → c < L.blocks → h.kind c = h₀.kind c
  flags : ∀ c, c < L.blocks → h.tables.ftbGet c =
    (h₀.tables.ftbGet c && !decide (c < k ∧ h₀.kind c = .head))
  words : h.words = runFinalisers w (h₀.finalised k) h₀.words
  collected : h.collected = h₀.collected + h₀.freedHeads k
  tail : ∀ a, k = a + 1 → h₀.kind a ≠ .free → freeTail = !h₀.kept a

theorem sweeping_zero (w : World) (h : Heap L) : Sweeping w h h 0 false where
  frame := rfl
  swept c hc := absurd hc (Nat.not_lt_zero c)
  rest _ _ _ := rfl
  flags c _ := by simp
  words := rfl
  collected := rfl
  tail a ha := by omega

namespace Sweeping

variable {w : World} {h₀ h g : Heap L} {k : Nat} {freeTail : Bool}

/-- The kinds behind a step that settles block `k`. -/
theorem swept_succ (hs : Sweeping w h₀ h k freeTail)
    (hkinds : ∀ c, c < L.blocks → g.kind c =
      if c = k then (if h₀.kept k then h₀.shape k else .free) else h.kind c)
    (hk : k < L.blocks) (c : Nat) (hc : c < k + 1) :
    g.kind c = if h₀.kept c then h₀.shape c else .free := by
  rw [hkinds c (by omega)]
  by_cases hck : c = k
  · rw [if_pos hck, hck]
  · rw [if_neg hck]
    exact hs.swept c (by omega)

theorem rest_succ (hs : Sweeping w h₀ h k freeTail)
    (hkinds : ∀ c, c < L.blocks → g.kind c =
      if c = k then (if h₀.kept k then h₀.shape k else .free) else h.kind c)
    (c : Nat) (hkc : k + 1 ≤ c) (hc : c < L.blocks) : g.kind c = h₀.kind c := by
  rw [hkinds c hc, if_neg (by omega)]
  exact hs.rest c (by omega) hc

/-- A block that is not an unmarked head runs no finaliser and keeps its flag. -/
theorem next_of_ne_head (hs : Sweeping w h₀ h k freeTail) (hk : k < L.blocks) {t : Tables L}
    (hne : h₀.kind k ≠ .head)
    (hkinds : ∀ c, c < L.blocks → t.kind c =
      if c = k then (if h₀.kept k then h₀.shape k else .free) else h.kind c)
    (hflags : ∀ c, t.ftbGet c = h.tables.ftbGet c) {freeTail' : Bool}
    (htail : h₀.kind k ≠ .free → freeTail' = !h₀.kept k) :
    Sweeping w h₀ { h with tables := t } (k + 1) freeTail' where
  frame := by
    rw [hs.frame]
  swept := hs.swept_succ (g := { h with tables := t }) hkinds hk
  rest := hs.rest_succ (g := { h with tables := t }) hkinds
  flags c hc := by
    have hsame : (c < k + 1 ∧ h₀.kind c = .head) ↔ (c < k ∧ h₀.kind c = .head) := by
      constructor
      · rintro ⟨hlt, hhead⟩
        have hck : c ≠ k := by
          rintro rfl
          exact hne hhead
        exact ⟨by omega, hhead⟩
      · rintro ⟨hlt, hhead⟩
        exact ⟨by omega, hhead⟩
    change t.ftbGet c = _
    rw [hflags, hs.flags c hc]
    simp only [hsame]
  words := by
    rw [finalised_succ_of_not fun h => hne h.1]
    exact hs.words
  collected := by
    rw [freedHeads_succ, if_neg hne]
    exact hs.collected
  tail a ha hfree := by
    obtain rfl : k = a := by omega
    exact htail hfree

/-- The finaliser of a block changes words and the block's flag. -/
theorem finalise_spec (w : World) (h : Heap L) (hk : k < L.blocks) :
    (∀ c, c < L.blocks → (finalise w h k).kind c = h.kind c) ∧
    (∀ c, (finalise w h k).tables.ftbGet c = (h.tables.ftbGet c && !decide (c = k))) ∧
    (finalise w h k).words =
      runFinalisers w (if h.tables.ftbGet k = true then [k] else []) h.words ∧
    finalise w h k = { h with
      tables := (finalise w h k).tables
      words := (finalise w h k).words } := by
  rw [finalise]
  by_cases hflag : h.tables.ftbGet k = true
  · rw [if_pos hflag, if_pos hflag]
    refine ⟨?_, ?_, rfl, rfl⟩
    · intro c hc
      exact Tables.kind_modify_ftb _ _ _ hc
    · intro c
      change (h.tables.ftbClear k).ftbGet c = _
      rw [Tables.ftbGet_ftbClear _ hk]
      by_cases hck : c = k
      · simp [hck]
      · simp [hck]
  · rw [if_neg hflag, if_neg hflag]
    refine ⟨fun _ _ => rfl, ?_, rfl, rfl⟩
    intro c
    by_cases hck : c = k
    · rw [hck]
      simpa using hflag
    · simp [hck]

/-- An unmarked head is finalised and freed. -/
theorem next_of_head (hs : Sweeping w h₀ h k freeTail) (hk : k < L.blocks)
    (hhead : h₀.kind k = .head) :
    Sweeping w h₀ { finalise w h k with
      tables := (finalise w h k).tables.anyToFree k
      collected := (finalise w h k).collected + 1 } (k + 1) true := by
  obtain ⟨hkind, hflag, hwords, hframe⟩ := finalise_spec w h hk
  have hkinds : ∀ c, c < L.blocks → ((finalise w h k).tables.anyToFree k).kind c =
      if c = k then (if h₀.kept k then h₀.shape k else .free) else h.kind c := by
    intro c hc
    have hc' : (finalise w h k).tables.kind c = h.kind c := hkind c hc
    rw [Tables.kind_anyToFree _ hk, kept_of_head hhead, hc', if_neg Bool.false_ne_true]
  have hflag₀ : h.tables.ftbGet k = h₀.tables.ftbGet k := by
    rw [hs.flags k hk]
    simp
  constructor
  · rw [hframe, hs.frame]
  · exact hs.swept_succ (g := { finalise w h k with
      tables := (finalise w h k).tables.anyToFree k
      collected := (finalise w h k).collected + 1 }) hkinds hk
  · exact hs.rest_succ (g := { finalise w h k with
      tables := (finalise w h k).tables.anyToFree k
      collected := (finalise w h k).collected + 1 }) hkinds
  · intro c hc
    change ((finalise w h k).tables.anyToFree k).ftbGet c = _
    rw [Tables.anyToFree, Tables.ftbGet_modify_atb _ (Tables.atb_lt hk), hflag, hs.flags c hc]
    by_cases hck : c = k
    · simp [hck, hhead]
    · have hlt : c < k + 1 ↔ c < k := by omega
      simp [hck, hlt]
  · change (finalise w h k).words = _
    rw [hwords, hs.words, hflag₀]
    by_cases hset : h₀.tables.ftbGet k = true
    · rw [if_pos hset, finalised_succ_of hhead hset, runFinalisers, runFinalisers, runFinalisers,
        List.foldl_append]
    · rw [if_neg hset, finalised_succ_of_not fun h => hset h.2]
      rfl
  · rw [freedHeads_succ, if_pos hhead, hframe]
    change h.collected + 1 = _
    rw [hs.collected, Nat.add_assoc]
  · intro a ha _
    obtain rfl : k = a := by omega
    rw [kept_of_head hhead]
    rfl

end Sweeping

/-- The loop goes on to the end of the heap. -/
theorem sweepLoop_spec {w : World} {h₀ : Heap L} (ht : h₀.TailsBehind) (n : Nat) {h : Heap L}
    {k : Nat} {freeTail : Bool} (hs : Sweeping w h₀ h k freeTail) (hkn : k + n = L.blocks) :
    ∃ freeTail', Sweeping w h₀ (sweepLoop w (List.range' k n) h freeTail) L.blocks freeTail' := by
  induction n generalizing h k freeTail with
  | zero =>
      obtain rfl : k = L.blocks := hkn
      exact ⟨freeTail, hs⟩
  | succ n ih =>
      have hk : k < L.blocks := by omega
      have hkind := hs.rest k (Nat.le_refl k) hk
      rw [List.range'_succ, sweepLoop, hkind]
      cases hcase : h₀.kind k with
      | free =>
          refine ih (hs.next_of_ne_head hk (t := h.tables) ?_ ?_ (fun _ => rfl) ?_) (by omega)
          · rw [hcase]
            exact Kind.noConfusion
          · intro c _
            rw [kept_of_free hcase, if_neg Bool.false_ne_true]
            by_cases hck : c = k
            · rw [if_pos hck, hck, ← hcase, ← hkind]
              rfl
            · rw [if_neg hck]
              rfl
          · exact fun hne => absurd hcase hne
      | head => exact ih (hs.next_of_head hk hcase) (by omega)
      | tail =>
          -- the flag says whether the block before, which is of the same chain, was kept
          obtain ⟨a, rfl, hafree⟩ := ht k hk hcase
          have hflag := hs.tail a rfl hafree
          have hkept := kept_of_tail hcase
          have hne : h₀.kind (a + 1) ≠ .head := by
            rw [hcase]
            exact Kind.noConfusion
          cases hka : h₀.kept a with
          | false =>
              rw [hka, Bool.not_false] at hflag
              rw [hflag]
              refine ih (hs.next_of_ne_head hk hne ?_ ?_ ?_) (by omega)
              · intro c _
                rw [hkept, hka, if_neg Bool.false_ne_true]
                exact Tables.kind_anyToFree _ hk c
              · exact fun c => Tables.ftbGet_modify_atb _ (Tables.atb_lt hk) _ _
              · rw [hkept, hka]
                exact fun _ => rfl
          | true =>
              rw [hka, Bool.not_true] at hflag
              rw [hflag]
              refine ih (hs.next_of_ne_head hk (t := h.tables) hne ?_ (fun _ => rfl) ?_) (by omega)
              · intro c _
                rw [hkept, hka, if_pos rfl, shape_eq_tail.mpr hcase]
                by_cases hck : c = a + 1
                · rw [if_pos hck, hck, ← hcase, ← hkind]
                  rfl
                · rw [if_neg hck]
                  rfl
              · rw [hkept, hka]
                exact fun _ => rfl
      | mark =>
          have hne : h₀.kind k ≠ .head := by
            rw [hcase]
            exact Kind.noConfusion
          refine ih (hs.next_of_ne_head hk hne ?_ ?_ ?_) (by omega)
          · intro c _
            rw [kept_of_mark hcase, if_pos rfl, shape_eq_head.mpr (Or.inr hcase)]
            exact Tables.kind_markToHead _ hk (hkind.trans hcase) c
          · exact fun c => Tables.ftbGet_modify_atb _ (Tables.atb_lt hk) _ _
          · rw [kept_of_mark hcase]
            exact fun _ => rfl

/-! ## The heap behind a sweep -/

theorem unmark_ne_mark (k : Kind) : k.unmark ≠ .mark := by
  cases k <;> exact Kind.noConfusion

section Swept

variable {h h' : Heap L}

/-- The heads that stay, and how many are freed. -/
theorem kind_eq_head_of_swept (hswept : ∀ c, c < L.blocks →
    h'.kind c = if h.kept c then h.shape c else .free) {b : Nat} (hb : b < L.blocks) :
    h'.shape b = .head ↔ h.kind b = .mark := by
  rw [shape, hswept b hb]
  cases hcase : h.kind b with
  | free => simp [kept_of_free hcase, Kind.unmark]
  | head => simp [kept_of_head hcase, Kind.unmark]
  | mark =>
      rw [kept_of_mark hcase, if_pos rfl, shape, hcase]
      simp [Kind.unmark]
  | tail =>
      rw [shape, hcase]
      split <;> simp [Kind.unmark]

/-- A marked object is left as it is. -/
theorem Object.swept (hswept : ∀ c, c < L.blocks →
    h'.kind c = if h.kept c then h.shape c else .free) {b n : Nat} (ho : h.Object b n)
    (hmark : h.kind b = .mark) : h'.Object b n where
  head := (kind_eq_head_of_swept hswept ho.lt).mpr hmark
  pos := ho.pos
  le := ho.le
  tails c hbc hcn := by
    have hle := ho.le
    rw [hswept c (by omega), (ho.kept (Nat.le_of_lt hbc) hcn).mpr hmark, if_pos rfl]
    exact shape_eq_tail.mpr (ho.tails c hbc hcn)
  last hlt := by
    rw [hswept _ hlt]
    split
    · exact fun htail => ho.last hlt (shape_eq_tail.mp htail)
    · exact Kind.noConfusion

theorem object_swept_iff (hswept : ∀ c, c < L.blocks →
    h'.kind c = if h.kept c then h.shape c else .free) (b n : Nat) :
    h'.Object b n ↔ h.Object b n ∧ h.kind b = .mark := by
  constructor
  · intro ho'
    have hmark := (kind_eq_head_of_swept hswept ho'.lt).mp ho'.head
    obtain ⟨m, ho⟩ := exists_object ho'.lt (shape_eq_head.mpr (Or.inr hmark))
    obtain rfl := ho'.unique (ho.swept hswept hmark)
    exact ⟨ho, hmark⟩
  · rintro ⟨ho, hmark⟩
    exact ho.swept hswept hmark

theorem tailsBehind_of_swept (hswept : ∀ c, c < L.blocks →
    h'.kind c = if h.kept c then h.shape c else .free) (ht : h.TailsBehind) : h'.TailsBehind := by
  intro b hb htail
  rw [hswept b hb] at htail
  cases hkept : h.kept b with
  | false =>
      rw [hkept, if_neg Bool.false_ne_true] at htail
      cases htail
  | true =>
      rw [hkept, if_pos rfl, shape_eq_tail] at htail
      obtain ⟨a, rfl, hfree⟩ := ht b hb htail
      refine ⟨a, rfl, ?_⟩
      rw [kept_of_tail htail] at hkept
      rw [hswept a (by omega), hkept, if_pos rfl]
      exact fun h => hfree (shape_eq_free.mp h)

/-- The heads of the heap before are those that stay and those that are freed. -/
theorem headCount_swept (hswept : ∀ c, c < L.blocks →
    h'.kind c = if h.kept c then h.shape c else .free) :
    h'.headCount + h.freedHeads L.blocks =
      ((Finset.range L.blocks).filter (h.shape · = .head)).card := by
  have hfreed : h.freedHeads L.blocks = h.headCount := by
    rw [freedHeads, List.countP_eq_length_filter, headCount]
    rfl
  have hstay : (Finset.range L.blocks).filter (h'.kind · = .head) =
      (Finset.range L.blocks).filter (h.kind · = .mark) := by
    apply Finset.filter_congr
    intro b hb
    rw [Finset.mem_range] at hb
    rw [← kind_eq_head_of_swept hswept hb, shape_eq_head]
    constructor
    · exact Or.inl
    · rintro (hhead | hmark)
      · exact hhead
      · rw [hswept b hb] at hmark
        split at hmark
        · exact absurd hmark (unmark_ne_mark _)
        · cases hmark
  have hsplit : (Finset.range L.blocks).filter (h.shape · = .head) =
      (Finset.range L.blocks).filter (h.kind · = .mark) ∪
        (Finset.range L.blocks).filter (h.kind · = .head) := by
    ext b
    simp only [Finset.mem_union, Finset.mem_filter, shape_eq_head]
    tauto
  have hdisj : Disjoint ((Finset.range L.blocks).filter (h.kind · = .mark))
      ((Finset.range L.blocks).filter (h.kind · = .head)) := by
    rw [Finset.disjoint_filter]
    intro b _ hmark hhead
    rw [hmark] at hhead
    cases hhead
  rw [hfreed, headCount, headCount, hstay, hsplit, Finset.card_union_of_disjoint hdisj]

end Swept

/-! ## A collection -/

/-- The roots of a collection. -/
def roots (w : World) (h : Heap L) : Set Nat := h.rootBlocks (w.ctx ++ w.regsAndStack)

/-- What is live: the heads that the roots reach. -/
def live (w : World) (h : Heap L) : Set Nat := Reached h.next (h.roots w)

/-- What a collection does. -/
structure Collected (w : World) (h h' : Heap L) : Prop where
  wf : h'.WellFormed
  objects : ∀ b n, h'.Object b n ↔ h.Object b n ∧ b ∈ h.live w
  flags : ∀ b, b < L.blocks → h'.tables.ftbGet b =
    (h.tables.ftbGet b && !decide (h.kind b = .head ∧ h'.kind b = .free))
  words : ∃ freed : List Nat, freed.Pairwise (· < ·) ∧
    (∀ b, b ∈ freed ↔ b < L.blocks ∧ h.kind b = .head ∧ b ∉ h.live w ∧ h.tables.ftbGet b = true) ∧
    h'.words = runFinalisers w freed h.words
  count : h'.headCount + h'.collected = h.headCount
  frame : h' = { h with
    tables := h'.tables
    words := h'.words
    lastFreeAtbIndex := 0
    lockDepth := h.lockDepth % 65536
    allocAmount := 0
    stackOverflow := h'.stackOverflow
    collected := h'.collected }

/-- The heap in which the marking begins. -/
def started (h : Heap L) : Heap L := { h.gcLock with allocAmount := 0, stackOverflow := false }

theorem started_shape (h : Heap L) (b : Nat) : h.started.shape b = h.shape b := rfl

theorem started_next (h : Heap L) : h.started.next = h.next := next_congr h.started_shape rfl

theorem started_walks (h : Heap L) : h.started.Walks = h.Walks := by
  have htail : ∀ c, h.started.kind c = .tail ↔ h.kind c = .tail := fun _ => Iff.rfl
  funext a
  rw [Walks, Walks, chainBlocks_congr htail]

theorem WellFormed.marked_eq_empty {h : Heap L} (hwf : h.WellFormed) : h.marked = ∅ := by
  ext b
  exact ⟨fun hb => absurd hb.2 (hwf.unmarked b hb.1), fun hb => absurd hb (Set.notMem_empty b)⟩

theorem WellFormed.tracing {h : Heap L} (hwf : h.WellFormed) : h.started.Tracing ∅ := by
  have hempty : h.started.marked = ∅ := hwf.marked_eq_empty
  refine ⟨Set.empty_subset _, ?_, ?_⟩
  · rw [hempty]
    exact Set.empty_subset _
  · rw [hempty]
    exact fun _ a ha => absurd ha (Set.notMem_empty a)

theorem roots_eq (w : World) (h : Heap L) :
    h.roots w = h.rootBlocks w.ctx ∪ h.rootBlocks w.regsAndStack := by
  ext b
  simp only [roots, rootBlocks, Set.mem_union, List.mem_append]
  constructor
  · rintro ⟨p, hp | hp, hb⟩
    · exact Or.inl ⟨p, hp, hb⟩
    · exact Or.inr ⟨p, hp, hb⟩
  · rintro (⟨p, hp, hb⟩ | ⟨p, hp, hb⟩)
    · exact ⟨p, Or.inl hp, hb⟩
    · exact ⟨p, Or.inr hp, hb⟩

/-- The end of a collection. -/
def settled (g : Heap L) : Heap L := ({ g with lastFreeAtbIndex := 0 } : Heap L).gcUnlock

/-- The marking half of a collection. -/
theorem gcCollect_marks {w : World} {h h' : Heap L} (hwf : h.WellFormed)
    (hsome : h.gcCollect w = some h') :
    ∃ h₂, h' = (gcSweep w h₂).settled ∧
      Marked h.started h₂ ∧ h₂.marked = h.live w ∧ ∀ a ∈ h.live w, h.Walks a := by
  rw [gcCollect, Option.bind_eq_some_iff] at hsome
  obtain ⟨h₁, hctx, hsome⟩ := hsome
  rw [Option.bind_eq_some_iff] at hsome
  obtain ⟨h₂, hregs, hsome⟩ := hsome
  rw [gcCollectEnd, Option.map_eq_some_iff] at hsome
  obtain ⟨h₃, hdeal, rfl⟩ := hsome
  obtain ⟨hm₁, ht₁⟩ := gcCollectRoot_run hwf.tracing hctx
  obtain ⟨hm₂, ht₂⟩ := gcCollectRoot_run ht₁ hregs
  obtain ⟨hm₃, hmarked, hwalks⟩ := gcDealWithStackOverflow_run ht₂ hdeal
  have hm := hm₁.trans hm₂
  have hlive : h₃.marked = h.live w := by
    rw [hmarked, hm.next_eq, hm₁.rootBlocks_eq, Set.empty_union, started_next, live, roots_eq]
    rfl
  refine ⟨h₃, rfl, hm.trans hm₃, hlive, ?_⟩
  rw [← hlive, ← started_walks, ← hm.walks_eq]
  exact hwalks

/-- A collection comes to an end unless it meets a live chain that leaves the table. -/
theorem gcCollect_isSome_iff {w : World} {h : Heap L} (hwf : h.WellFormed) :
    (∃ h', h.gcCollect w = some h') ↔ ∀ a ∈ h.live w, h.Walks a := by
  constructor
  · rintro ⟨h', hsome⟩
    obtain ⟨-, -, -, -, hwalks⟩ := gcCollect_marks hwf hsome
    exact hwalks
  · intro hwalks
    have hsafe : h.started.Safe (h.live w) := by
      refine ⟨?_, ?_⟩
      · rw [started_next]
        exact fun a ha b hab => reached_step ha hab
      · rw [started_walks]
        exact hwalks
    have hctx : h.started.rootBlocks w.ctx ⊆ h.live w := by
      rw [live, roots_eq]
      exact Set.subset_union_left.trans (subset_reached _)
    have hregs : h.started.rootBlocks w.regsAndStack ⊆ h.live w := by
      rw [live, roots_eq]
      exact Set.subset_union_right.trans (subset_reached _)
    have hempty : h.started.marked ⊆ h.live w := by
      rw [show h.started.marked = ∅ from hwf.marked_eq_empty]
      exact Set.empty_subset _
    obtain ⟨h₁, hsome₁⟩ := gcCollectRoot_some hsafe hempty hctx
    obtain ⟨hm₁, ht₁⟩ := gcCollectRoot_run hwf.tracing hsome₁
    have hin₁ : ∅ ∪ h.started.rootBlocks w.ctx ⊆ h.live w := by
      rw [Set.empty_union]
      exact hctx
    have hsafe₁ := hsafe.marked hm₁
    have hroots₂ : h₁.rootBlocks w.regsAndStack ⊆ h.live w := by
      rw [hm₁.rootBlocks_eq]
      exact hregs
    obtain ⟨h₂, hsome₂⟩ := gcCollectRoot_some hsafe₁
      (ht₁.sound.trans (reached_subset hin₁ hsafe₁.closed)) hroots₂
    obtain ⟨hm₂, ht₂⟩ := gcCollectRoot_run ht₁ hsome₂
    obtain ⟨h₃, hsome₃⟩ := gcDealWithStackOverflow_some (hsafe₁.marked hm₂)
      (Set.union_subset hin₁ hroots₂) ht₂
    refine ⟨(gcSweep w h₃).settled, ?_⟩
    rw [gcCollect, gcCollectStart]
    change (gcCollectRoot w.ctx h.started).bind _ = _
    rw [hsome₁, Option.bind_some, hsome₂, Option.bind_some, gcCollectEnd, hsome₃]
    rfl

/-- The heap that is swept: the heads that the roots reach are marked. -/
structure Traced (w : World) (h h₃ : Heap L) : Prop where
  marks : Marked { h.started with collected := 0 } h₃
  mark_iff : ∀ b, b < L.blocks → (h₃.kind b = .mark ↔ b ∈ h.live w)

theorem Sweeping.settled {w : World} {h₀ g : Heap L} {freeTail : Bool}
    (hs : Sweeping w h₀ g L.blocks freeTail) (c : Nat) (hc : c < L.blocks) :
    g.settled.kind c = if h₀.kept c then h₀.shape c else .free := hs.swept c hc

namespace Traced

variable {w : World} {h h₃ g : Heap L} {freeTail : Bool}

theorem head_iff (ht : Traced w h h₃) {b : Nat} (hb : b < L.blocks) :
    h₃.kind b = .head ↔ h.kind b = .head ∧ b ∉ h.live w := by
  rw [← ht.mark_iff b hb]
  have hkind : h₃.kind b = h.kind b ∨ b < L.blocks ∧ h.kind b = .head ∧ h₃.kind b = .mark :=
    ht.marks.kinds b
  rcases hkind with heq | ⟨-, -, hmark⟩
  · -- marked before it would be marked still
    rw [← heq]
    constructor
    · intro hhead
      rw [hhead]
      exact ⟨rfl, Kind.noConfusion⟩
    · exact fun h => h.1
  · rw [hmark]
    exact ⟨fun h => Kind.noConfusion h, fun h => absurd rfl h.2⟩

theorem tailsBehind (ht : Traced w h h₃) (hwf : h.WellFormed) : h₃.TailsBehind := by
  intro b hb htail
  obtain ⟨a, rfl, hfree⟩ := hwf.tails b hb ((ht.marks.tail b).mp htail)
  have hshape : h₃.shape a = h.shape a := ht.marks.shape a
  refine ⟨a, rfl, ?_⟩
  intro hafree
  rw [← shape_eq_free, hshape, shape_eq_free] at hafree
  exact hfree hafree

/-- The flags that are cleared are those of the heads that are freed. -/
theorem flags (ht : Traced w h h₃) (hs : Sweeping w h₃ g L.blocks freeTail) {b : Nat}
    (hb : b < L.blocks) :
    g.tables.ftbGet b = (h.tables.ftbGet b && !decide (h.kind b = .head ∧ g.kind b = .free)) := by
  have hflags := hs.flags b hb
  rw [ht.marks.flags b] at hflags
  refine hflags.trans ?_
  have hfreed : (b < L.blocks ∧ h₃.kind b = .head) ↔ (h.kind b = .head ∧ g.kind b = .free) := by
    rw [hs.swept b hb]
    constructor
    · rintro ⟨-, hhead⟩
      rw [kept_of_head hhead]
      exact ⟨((ht.head_iff hb).mp hhead).1, rfl⟩
    · rintro ⟨hhead, hfree⟩
      refine ⟨hb, (ht.head_iff hb).mpr ⟨hhead, ?_⟩⟩
      rw [← ht.mark_iff b hb]
      intro hmark
      rw [kept_of_mark hmark, if_pos rfl, shape_eq_free, hmark] at hfree
      cases hfree
  simp only [hfreed]
  rfl

theorem settled_wf (ht : Traced w h h₃) (hwf : h.WellFormed)
    (hs : Sweeping w h₃ g L.blocks freeTail) : g.settled.WellFormed where
  unmarked b hb := by
    change g.kind b ≠ .mark
    rw [hs.swept b hb]
    split
    · exact unmark_ne_mark _
    · exact Kind.noConfusion
  tails := tailsBehind_of_swept hs.settled (ht.tailsBehind hwf)
  flags b hb hflag := by
    change g.tables.ftbGet b = true at hflag
    change g.kind b = .head
    rw [ht.flags hs hb, Bool.and_eq_true, Bool.not_eq_true', decide_eq_false_iff_not] at hflag
    -- a head with a flag that is still set has not been freed
    have hhead := hwf.flags b hb hflag.1
    have hstays : g.kind b ≠ .free := fun hfree => hflag.2 ⟨hhead, hfree⟩
    have hshape : h₃.shape b = h.shape b := ht.marks.shape b
    rw [hs.swept b hb, hshape] at hstays ⊢
    split at hstays
    · next hkept =>
        rw [if_pos hkept, shape, hhead]
        rfl
    · exact absurd rfl hstays
  lastFree b hb := by
    change b < 0 * blocksPerAtb at hb
    omega

theorem objects (ht : Traced w h h₃) (hs : Sweeping w h₃ g L.blocks freeTail) (b n : Nat) :
    g.settled.Object b n ↔ h.Object b n ∧ b ∈ h.live w := by
  have hshape : ∀ b, h₃.shape b = h.shape b := ht.marks.shape
  rw [object_swept_iff hs.settled, object_congr hshape]
  constructor
  · rintro ⟨ho, hmark⟩
    exact ⟨ho, (ht.mark_iff b ho.lt).mp hmark⟩
  · rintro ⟨ho, hlive⟩
    exact ⟨ho, (ht.mark_iff b ho.lt).mpr hlive⟩

theorem mem_finalised (ht : Traced w h h₃) (b : Nat) :
    b ∈ h₃.finalised L.blocks ↔
      b < L.blocks ∧ h.kind b = .head ∧ b ∉ h.live w ∧ h.tables.ftbGet b = true := by
  rw [finalised, List.mem_filter, List.mem_range, decide_eq_true_eq, ht.marks.flags b]
  constructor
  · rintro ⟨hb, hhead, hflag⟩
    have hdead := (ht.head_iff hb).mp hhead
    exact ⟨hb, hdead.1, hdead.2, hflag⟩
  · rintro ⟨hb, hhead, hdead, hflag⟩
    exact ⟨hb, (ht.head_iff hb).mpr ⟨hhead, hdead⟩, hflag⟩

/-- Nothing is marked before a collection, so the heads are those that stay and those that are
counted. -/
theorem headCount (ht : Traced w h h₃) (hwf : h.WellFormed)
    (hs : Sweeping w h₃ g L.blocks freeTail) :
    g.settled.headCount + g.settled.collected = h.headCount := by
  have hzero : h₃.collected = 0 := by
    rw [ht.marks.frame]
  have hcollected : g.settled.collected = h₃.freedHeads L.blocks := by
    have hsum := hs.collected
    rw [hzero, Nat.zero_add] at hsum
    exact hsum
  have hbefore : (Finset.range L.blocks).filter (h₃.shape · = .head) =
      (Finset.range L.blocks).filter (h.kind · = .head) := by
    apply Finset.filter_congr
    intro b hb
    have hshape : h₃.shape b = h.shape b := ht.marks.shape b
    rw [hshape, shape_eq_head]
    constructor
    · rintro (h | h)
      · exact h
      · exact absurd h (hwf.unmarked b (Finset.mem_range.mp hb))
    · exact Or.inl
  rw [hcollected, headCount_swept hs.settled, hbefore]
  rfl

/-- The heap is locked during a collection, and what has been allocated is counted from 0. -/
theorem settled_eq (ht : Traced w h h₃) (hs : Sweeping w h₃ g L.blocks freeTail) :
    g.settled = { h with
      tables := g.tables
      words := g.words
      lastFreeAtbIndex := 0
      lockDepth := h.lockDepth % 65536
      allocAmount := 0
      stackOverflow := g.stackOverflow
      collected := g.collected } := by
  have hmarks := ht.marks.frame
  have hswept := hs.frame
  have hdepth : ((h.lockDepth + 1) % 65536 + 65535) % 65536 = h.lockDepth % 65536 := by omega
  have hlock : g.lockDepth = (h.lockDepth + 1) % 65536 := by
    rw [hswept, hmarks]
    rfl
  have hauto : g.autoCollectEnabled = h.autoCollectEnabled := by
    rw [hswept, hmarks]
    rfl
  have hthreshold : g.allocThreshold = h.allocThreshold := by
    rw [hswept, hmarks]
    rfl
  have hamount : g.allocAmount = 0 := by
    rw [hswept, hmarks]
    rfl
  apply Heap.ext
  · rfl
  · rfl
  · rfl
  · change (g.lockDepth + 65535) % 65536 = _
    rw [hlock]
    exact hdepth
  · exact hauto
  · exact hthreshold
  · exact hamount
  · rfl
  · rfl

end Traced

/-- A collection frees the objects that the roots do not reach and keeps the others, for every
size of the mark stack. -/
theorem gcCollect_run {w : World} {h h' : Heap L} (hwf : h.WellFormed)
    (hsome : h.gcCollect w = some h') : Collected w h h' := by
  obtain ⟨h₂, rfl, hm, hmarked, -⟩ := gcCollect_marks hwf hsome
  -- `gc_sweep` counts from 0
  set h₃ : Heap L := { h₂ with collected := 0 } with hh₃
  have ht : Traced w h h₃ := by
    refine ⟨⟨?_, hm.flags, hm.kinds⟩, ?_⟩
    · rw [hh₃, hm.frame]
    · intro b hb
      rw [← hmarked]
      exact ⟨fun h => ⟨hb, h⟩, fun h => h.2⟩
  obtain ⟨freeTail, hs⟩ :=
    sweepLoop_spec (w := w) (ht.tailsBehind hwf) L.blocks (sweeping_zero w h₃) (Nat.zero_add _)
  rw [← List.range_eq_range'] at hs
  change Sweeping w h₃ (gcSweep w h₂) L.blocks freeTail at hs
  have hwords := hs.words
  rw [ht.marks.words] at hwords
  exact {
    wf := ht.settled_wf hwf hs
    objects := ht.objects hs
    flags := fun b hb => ht.flags hs hb
    words := ⟨h₃.finalised L.blocks, List.pairwise_lt_range.filter _, ht.mem_finalised, hwords⟩
    count := ht.headCount hwf hs
    frame := ht.settled_eq hs }

/-- The chain goes to the last block, and what is read behind that, the flags of the first two
blocks, looks like a tail block. -/
def RunsOut (h : Heap L) (a : Nat) : Prop :=
  h.Object a (L.blocks - a) ∧ h.tables.ftbGet 0 = false ∧ h.tables.ftbGet 1 = true

theorem walks_iff {h : Heap L} {a : Nat} (ha : a < L.blocks) (hhead : h.shape a = .head) :
    h.Walks a ↔ ¬ h.RunsOut a := by
  constructor
  · rintro ⟨n, hn⟩ ⟨ho, hflags⟩
    obtain ⟨-, hle, -, hend⟩ := (chainBlocks_eq_some ha).mp hn
    obtain rfl := (object_of_chainBlocks ha hhead hn).unique ho
    rw [show a + (L.blocks - a) = L.blocks by omega] at hend
    exact hend ((kind_blocks_eq_tail h.tables).mpr hflags)
  · intro hno
    obtain ⟨n, ho⟩ := exists_object ha hhead
    refine ⟨n, ho.chainBlocks ?_⟩
    intro hend htail
    refine hno ⟨?_, (kind_blocks_eq_tail h.tables).mp htail⟩
    rw [show L.blocks - a = n by omega]
    exact ho

theorem head_of_live {w : World} {h : Heap L} {a : Nat} (ha : a ∈ h.live w) :
    a < L.blocks ∧ h.shape a = .head := by
  have hchild : ∀ {ptr b : Nat}, h.IsChild ptr b → b < L.blocks ∧ h.shape b = .head := by
    rintro ptr b ⟨hverify, rfl, hhead⟩
    exact ⟨L.blockFromPtr_lt hverify, hhead⟩
  obtain ⟨r, ⟨ptr, -, hr⟩, hreach⟩ := ha
  cases hreach with
  | refl => exact hchild hr
  | tail _ hstep =>
      obtain ⟨n, -, ptr', -, hc⟩ := hstep
      exact hchild hc

/-- A collection gets to its end exactly if no live chain runs out of the table, and then it has
kept what the roots reach and nothing else. -/
theorem gcCollect_correct {h : Heap L} (hwf : h.WellFormed) (w : World) :
    ((∃ h', h.gcCollect w = some h') ↔ ∀ a ∈ h.live w, ¬ h.RunsOut a) ∧
      ∀ h', h.gcCollect w = some h' → Collected w h h' := by
  refine ⟨?_, fun h' hsome => gcCollect_run hwf hsome⟩
  rw [gcCollect_isSome_iff hwf]
  refine forall₂_congr ?_
  intro a ha
  obtain ⟨hlt, hhead⟩ := head_of_live ha
  exact walks_iff hlt hhead

/-- With a root to the only object, the collection gets to its end and keeps it. -/
theorem gcCollect_correct_oneObject :
    ∃ h', oneObject.gcCollect (.quiet [4224]) = some h' ∧
      Collected (.quiet [4224]) oneObject h' := by
  have hcollect := gcCollect_correct oneObject_wf (.quiet [4224])
  have hflag : oneObject.tables.ftbGet 1 = false := by decide
  have hinside : ∀ a ∈ oneObject.live (.quiet [4224]), ¬ oneObject.RunsOut a := by
    intro a _ hout
    rw [hout.2.2] at hflag
    cases hflag
  rcases hcollect.1.mpr hinside with ⟨h', hrun⟩
  exact ⟨h', hrun, hcollect.2 h' hrun⟩

end EfiLvgl.Gc.Heap
