import EfiLvgl.Gc.Chain
import EfiLvgl.Lib.Reach
import Mathlib.Data.Finset.Card

/-!
# EfiLvgl.Gc.Mark — marking marks what can be reached

The stack of `gc_mark_subtree` is bounded: when it is full, a child is marked and dropped, and
`gc_deal_with_stack_overflow` goes over the heap again. `MarkRun` says what every part of the
marking does, with a stretch of `EfiLvgl.Lib.Reach` that is clean when nothing was dropped;
the fuel of the two loops is enough because a block is marked once (`headCount`).
-/

namespace EfiLvgl.Gc.Heap

open EfiLvgl.Reach

variable {L : Layout}

/-- A word of the one chain is a pointer to the head of the other. -/
def next (h : Heap L) (a b : Nat) : Prop :=
  ∃ n, h.Object a n ∧
    ∃ ptr ∈ h.blockWords a n, L.verifyPtr ptr = true ∧ L.blockFromPtr ptr = b ∧ h.shape b = .head

/-- The walk along the chain does not leave the table. -/
def Walks (h : Heap L) (a : Nat) : Prop := ∃ n, h.chainBlocks a = some n

def marked (h : Heap L) : Set Nat := {b | b < L.blocks ∧ h.kind b = .mark}

theorem mem_marked {h : Heap L} {b : Nat} : b ∈ h.marked ↔ b < L.blocks ∧ h.kind b = .mark :=
  Iff.rfl

/-- The number of heads that are not marked. -/
def headCount (h : Heap L) : Nat := ((Finset.range L.blocks).filter (h.kind · = .head)).card

/-- Heaps that differ in marks only have the same graph. -/
theorem next_congr {h h' : Heap L} (hshape : ∀ b, h'.shape b = h.shape b)
    (hwords : h'.words = h.words) : h'.next = h.next := by
  have hword : ∀ a n, h'.blockWords a n = h.blockWords a n := by
    intro a n
    rw [blockWords, blockWords, hwords]
  funext a b
  simp only [next, object_congr hshape, hshape, hword]

/-! ## Only heads are marked -/

/-- From the one heap to the other some heads were marked, and nothing else was changed. -/
structure Marked (h h' : Heap L) : Prop where
  frame : h' = { h with tables := h'.tables, stackOverflow := h'.stackOverflow }
  flags : ∀ b, h'.tables.ftbGet b = h.tables.ftbGet b
  kinds : ∀ b, h'.kind b = h.kind b ∨ b < L.blocks ∧ h.kind b = .head ∧ h'.kind b = .mark

namespace Marked

variable {h h' h'' : Heap L}

theorem refl (h : Heap L) : Marked h h := ⟨rfl, fun _ => rfl, fun _ => Or.inl rfl⟩

theorem trans (hm : Marked h h') (hm' : Marked h' h'') : Marked h h'' where
  frame := by
    rw [hm'.frame, hm.frame]
  flags b := (hm'.flags b).trans (hm.flags b)
  kinds b := by
    rcases hm'.kinds b with heq' | ⟨hlt, hhead, hmark⟩
    · rw [heq']
      exact hm.kinds b
    · rcases hm.kinds b with heq | ⟨-, -, hmark'⟩
      · exact Or.inr ⟨hlt, heq ▸ hhead, hmark⟩
      · rw [hhead] at hmark'
        cases hmark'

theorem words (hm : Marked h h') : h'.words = h.words := by
  rw [hm.frame]

theorem shape (hm : Marked h h') (b : Nat) : h'.shape b = h.shape b := by
  rcases hm.kinds b with heq | ⟨-, hhead, hmark⟩
  · rw [Heap.shape, Heap.shape, heq]
  · rw [Heap.shape, Heap.shape, hhead, hmark]
    rfl

theorem tail (hm : Marked h h') (b : Nat) : h'.kind b = .tail ↔ h.kind b = .tail := by
  rw [← shape_eq_tail, ← shape_eq_tail, hm.shape]

theorem marked_subset (hm : Marked h h') : h.marked ⊆ h'.marked := by
  rintro b ⟨hlt, hmark⟩
  refine ⟨hlt, ?_⟩
  rcases hm.kinds b with heq | ⟨-, -, hmark'⟩
  · rw [heq, hmark]
  · exact hmark'

/-- A block that is an unmarked head afterwards was one before. -/
theorem head_of_head (hm : Marked h h') {b : Nat} (hb : h'.kind b = .head) : h.kind b = .head := by
  rcases hm.kinds b with heq | ⟨-, hhead, -⟩
  · rw [← heq, hb]
  · exact hhead

theorem headCount_le (hm : Marked h h') : h'.headCount ≤ h.headCount := by
  apply Finset.card_le_card
  intro b hb
  rw [Finset.mem_filter] at hb ⊢
  exact ⟨hb.1, hm.head_of_head hb.2⟩

theorem next_eq (hm : Marked h h') : h'.next = h.next := next_congr hm.shape hm.words

theorem walks_eq (hm : Marked h h') : h'.Walks = h.Walks := by
  funext a
  rw [Walks, Walks, chainBlocks_congr hm.tail]

end Marked

/-- A head is marked. -/
def setMark (h : Heap L) (b : Nat) : Heap L := { h with tables := h.tables.headToMark b }

theorem kind_setMark {h : Heap L} {b : Nat} (hb : b < L.blocks) (c : Nat) :
    (h.setMark b).kind c = if c = b then .mark else h.kind c :=
  h.tables.kind_headToMark hb c

theorem marked_setMark {h : Heap L} {b : Nat} (hb : b < L.blocks) :
    (h.setMark b).marked = insert b h.marked := by
  ext c
  rw [Set.mem_insert_iff, mem_marked, mem_marked, kind_setMark hb]
  by_cases hcb : c = b
  · simp [hcb, hb]
  · simp [hcb]

theorem Marked.setMark {h : Heap L} {b : Nat} (hb : b < L.blocks) (hhead : h.kind b = .head) :
    Marked h (h.setMark b) where
  frame := rfl
  flags c := Tables.ftbGet_modify_atb _ (Tables.atb_lt hb) _ _
  kinds c := by
    rw [kind_setMark hb]
    by_cases hcb : c = b
    · rw [if_pos hcb, hcb]
      exact Or.inr ⟨hb, hhead, rfl⟩
    · rw [if_neg hcb]
      exact Or.inl rfl

theorem headCount_setMark {h : Heap L} {b : Nat} (hb : b < L.blocks) (hhead : h.kind b = .head) :
    (h.setMark b).headCount + 1 = h.headCount := by
  have hmem : b ∈ (Finset.range L.blocks).filter (h.kind · = .head) := by
    rw [Finset.mem_filter, Finset.mem_range]
    exact ⟨hb, hhead⟩
  have herase : (Finset.range L.blocks).filter ((h.setMark b).kind · = .head) =
      ((Finset.range L.blocks).filter (h.kind · = .head)).erase b := by
    ext c
    rw [Finset.mem_filter, Finset.mem_erase, Finset.mem_filter, kind_setMark hb]
    by_cases hcb : c = b
    · simp [hcb]
    · simp [hcb]
  rw [headCount, herase, Finset.card_erase_add_one hmem, headCount]

/-! ## The children of a chain -/

/-- What a word of a chain points to. -/
def IsChild (h : Heap L) (ptr b : Nat) : Prop :=
  L.verifyPtr ptr = true ∧ L.blockFromPtr ptr = b ∧ h.shape b = .head

/-- What the loop over the words of a chain does. -/
structure ChildrenMarked (h : Heap L) (stack ptrs : List Nat) (h' : Heap L) (stack' : List Nat) :
    Prop where
  run : Marked h h'
  children : ∀ ptr ∈ ptrs, ∀ b, h.IsChild ptr b → b ∈ h'.marked
  fresh : ∀ b ∈ h'.marked, b ∈ h.marked ∨ ∃ ptr ∈ ptrs, h.IsChild ptr b
  kept : ∀ b ∈ stack, b ∈ stack'
  pushed : ∀ b ∈ h'.marked, b ∈ h.marked ∨ b ∈ stack' ∨ h'.stackOverflow = true
  onStack : ∀ b ∈ stack', b ∈ stack ∨ b ∈ h'.marked ∧ ∃ ptr ∈ ptrs, h.IsChild ptr b
  size : h'.headCount + stack'.length ≤ h.headCount + stack.length
  overflow : h.stackOverflow = true → h'.stackOverflow = true
  dropped : h'.stackOverflow = true → h.stackOverflow = true ∨ h'.headCount < h.headCount

/-- The loop goes on from a heap in which the first word was looked at. -/
theorem ChildrenMarked.cons {h h₁ h' : Heap L} {stack stack₁ stack' ptrs : List Nat} {ptr : Nat}
    (hfirst : ChildrenMarked h stack [ptr] h₁ stack₁)
    (hrest : ChildrenMarked h₁ stack₁ ptrs h' stack') :
    ChildrenMarked h stack (ptr :: ptrs) h' stack' := by
  -- marks do not change what is a child
  have hchild : ∀ ptr b, h₁.IsChild ptr b ↔ h.IsChild ptr b := by
    intro ptr b
    rw [IsChild, IsChild, hfirst.run.shape]
  have hsub := hrest.run.marked_subset
  constructor
  · exact hfirst.run.trans hrest.run
  · intro p hp b hb
    rcases List.mem_cons.mp hp with rfl | hp
    · exact hsub (hfirst.children p (List.mem_singleton_self p) b hb)
    · exact hrest.children p hp b ((hchild p b).mpr hb)
  · intro b hb
    rcases hrest.fresh b hb with hold | ⟨p, hp, hpb⟩
    · rcases hfirst.fresh b hold with hold | ⟨p, hp, hpb⟩
      · exact Or.inl hold
      · rw [List.mem_singleton] at hp
        exact Or.inr ⟨p, hp ▸ List.mem_cons_self .., hpb⟩
    · exact Or.inr ⟨p, List.mem_cons_of_mem _ hp, (hchild p b).mp hpb⟩
  · intro b hb
    exact hrest.kept b (hfirst.kept b hb)
  · intro b hb
    rcases hrest.pushed b hb with hold | hnew
    · rcases hfirst.pushed b hold with hold | hstack | hover
      · exact Or.inl hold
      · exact Or.inr (Or.inl (hrest.kept b hstack))
      · exact Or.inr (Or.inr (hrest.overflow hover))
    · exact Or.inr hnew
  · intro b hb
    rcases hrest.onStack b hb with hstack | ⟨hmark, p, hp, hpb⟩
    · rcases hfirst.onStack b hstack with hstack | ⟨hmark, p, hp, hpb⟩
      · exact Or.inl hstack
      · rw [List.mem_singleton] at hp
        exact Or.inr ⟨hsub hmark, p, hp ▸ List.mem_cons_self .., hpb⟩
    · exact Or.inr ⟨hmark, p, List.mem_cons_of_mem _ hp, (hchild p b).mp hpb⟩
  · exact hrest.size.trans hfirst.size
  · exact fun hover => hrest.overflow (hfirst.overflow hover)
  · -- a head that is dropped is marked, so there are fewer unmarked ones
    intro hover
    have hle := hrest.run.headCount_le
    have hle₁ := hfirst.run.headCount_le
    rcases hrest.dropped hover with hover | hlt
    · rcases hfirst.dropped hover with hover | hlt
      · exact Or.inl hover
      · exact Or.inr (by omega)
    · exact Or.inr (by omega)

/-- A word that is no pointer to an unmarked head. -/
theorem ChildrenMarked.skip {h : Heap L} {stack : List Nat} {ptr : Nat}
    (hskip : ¬ (L.verifyPtr ptr = true ∧ h.kind (L.blockFromPtr ptr) = .head)) :
    ChildrenMarked h stack [ptr] h stack := by
  constructor
  · exact Marked.refl h
  · rintro p hp b ⟨hverify, rfl, hshape⟩
    rw [List.mem_singleton] at hp
    subst hp
    refine ⟨L.blockFromPtr_lt hverify, ?_⟩
    -- a child that is skipped is marked already
    rcases shape_eq_head.mp hshape with hhead | hmark
    · exact absurd ⟨hverify, hhead⟩ hskip
    · exact hmark
  · exact fun b hb => Or.inl hb
  · exact fun b hb => hb
  · exact fun b hb => Or.inl hb
  · exact fun b hb => Or.inl hb
  · exact Nat.le_refl _
  · exact fun hover => hover
  · exact fun hover => Or.inl hover

/-- A pointer to an unmarked head: it is marked, and pushed or dropped. -/
theorem ChildrenMarked.take {h h' : Heap L} {stack stack' : List Nat} {ptr : Nat}
    (hverify : L.verifyPtr ptr = true) (hhead : h.kind (L.blockFromPtr ptr) = .head)
    (hh' : h' = { h.setMark (L.blockFromPtr ptr) with stackOverflow := h'.stackOverflow })
    (hpush : stack' = L.blockFromPtr ptr :: stack ∧ h'.stackOverflow = h.stackOverflow ∨
      stack' = stack ∧ h'.stackOverflow = true) :
    ChildrenMarked h stack [ptr] h' stack' := by
  have hlt := L.blockFromPtr_lt hverify
  have hset := Marked.setMark hlt hhead
  have hshape : h.shape (L.blockFromPtr ptr) = .head := shape_eq_head.mpr (Or.inl hhead)
  have hmarked : h'.marked = insert (L.blockFromPtr ptr) h.marked := by
    rw [hh', ← marked_setMark hlt]
    rfl
  have hcount : h'.headCount + 1 = h.headCount := by
    rw [hh', ← headCount_setMark hlt hhead]
    rfl
  have hm : Marked h h' := by
    refine ⟨?_, ?_, ?_⟩
    · rw [hh']
      rfl
    · rw [hh']
      exact hset.flags
    · rw [hh']
      exact hset.kinds
  constructor
  · exact hm
  · rintro p hp b ⟨-, rfl, -⟩
    rw [List.mem_singleton] at hp
    rw [hmarked, hp]
    exact Set.mem_insert _ _
  · intro b hb
    rw [hmarked] at hb
    rcases hb with rfl | hb
    · exact Or.inr ⟨ptr, List.mem_singleton_self ptr, hverify, rfl, hshape⟩
    · exact Or.inl hb
  · intro b hb
    rcases hpush with ⟨rfl, -⟩ | ⟨rfl, -⟩
    · exact List.mem_cons_of_mem _ hb
    · exact hb
  · intro b hb
    rw [hmarked] at hb
    rcases hb with rfl | hb
    · rcases hpush with ⟨rfl, -⟩ | ⟨-, hover⟩
      · exact Or.inr (Or.inl (List.mem_cons_self ..))
      · exact Or.inr (Or.inr hover)
    · exact Or.inl hb
  · intro b hb
    rcases hpush with ⟨rfl, -⟩ | ⟨rfl, -⟩
    · rcases List.mem_cons.mp hb with rfl | hb
      · refine Or.inr ⟨?_, ptr, List.mem_singleton_self ptr, hverify, rfl, hshape⟩
        rw [hmarked]
        exact Set.mem_insert _ _
      · exact Or.inl hb
    · exact Or.inl hb
  · rcases hpush with ⟨rfl, -⟩ | ⟨rfl, -⟩
    · -- what the stack gains, the unmarked heads lose
      rw [List.length_cons]
      omega
    · omega
  · intro hover
    rcases hpush with ⟨-, heq⟩ | ⟨-, htrue⟩
    · rw [heq, hover]
    · exact htrue
  · intro hover
    -- the head that is dropped is marked all the same
    exact Or.inr (by omega)

theorem markChildren_spec (ptrs : List Nat) (h : Heap L) (stack : List Nat) :
    ChildrenMarked h stack ptrs (markChildren h stack ptrs).1 (markChildren h stack ptrs).2 := by
  induction ptrs generalizing h stack with
  | nil =>
      rw [markChildren]
      exact ⟨Marked.refl h, fun _ hp => absurd hp List.not_mem_nil, fun _ hb => Or.inl hb,
        fun _ hb => hb, fun _ hb => Or.inl hb, fun _ hb => Or.inl hb, Nat.le_refl _,
        fun hover => hover, fun hover => Or.inl hover⟩
  | cons ptr ptrs ih =>
      rw [markChildren]
      by_cases htake : L.verifyPtr ptr = true ∧ h.kind (L.blockFromPtr ptr) = .head
      · rw [if_pos htake]
        dsimp only
        by_cases hroom : stack.length < L.gcStackSize
        · rw [if_pos hroom]
          have hfirst : ChildrenMarked h stack [ptr] (h.setMark (L.blockFromPtr ptr))
              (L.blockFromPtr ptr :: stack) :=
            ChildrenMarked.take htake.1 htake.2 rfl (Or.inl ⟨rfl, rfl⟩)
          exact hfirst.cons (ih _ _)
        · -- the stack is full: the child is marked, and its words wait for another round
          rw [if_neg hroom]
          have hfirst : ChildrenMarked h stack [ptr]
              { h.setMark (L.blockFromPtr ptr) with stackOverflow := true } stack :=
            ChildrenMarked.take htake.1 htake.2 rfl (Or.inr ⟨rfl, rfl⟩)
          exact hfirst.cons (ih _ _)
      · rw [if_neg htake]
        exact (ChildrenMarked.skip htake).cons (ih _ _)

/-! ## A subtree -/

/-- What a part of the marking does, in which the chains `todo` were visited. -/
structure MarkRun (h : Heap L) (todo : Set Nat) (h' : Heap L) : Prop where
  run : Marked h h'
  marks : Marks h.next h.Walks todo h.marked h'.marked (h'.stackOverflow = false)
  overflow : h.stackOverflow = true → h'.stackOverflow = true
  dropped : h'.stackOverflow = true → h.stackOverflow = true ∨ h'.headCount < h.headCount

namespace MarkRun

theorem refl (h : Heap L) : MarkRun h ∅ h :=
  ⟨Marked.refl h, Marks.refl _, fun hover => hover, fun hover => Or.inl hover⟩

theorem clean_before {h h' : Heap L} {todo : Set Nat} (hr : MarkRun h todo h')
    (hclean : h'.stackOverflow = false) : h.stackOverflow = false := by
  cases hover : h.stackOverflow with
  | false => rfl
  | true =>
      rw [hr.overflow hover] at hclean
      cases hclean

theorem trans {h h' h'' : Heap L} {todo todo' : Set Nat} (hr : MarkRun h todo h')
    (hr' : MarkRun h' todo' h'') : MarkRun h (todo ∪ todo') h'' where
  run := hr.run.trans hr'.run
  marks := by
    have hmarks := hr'.marks
    rw [hr.run.next_eq, hr.run.walks_eq] at hmarks
    exact (hr.marks.trans hmarks).weaken fun hclean => ⟨hr'.clean_before hclean, hclean⟩
  overflow hover := hr'.overflow (hr.overflow hover)
  dropped hover := by
    have hle := hr.run.headCount_le
    have hle' := hr'.run.headCount_le
    rcases hr'.dropped hover with hover | hlt
    · rcases hr.dropped hover with hover | hlt
      · exact Or.inl hover
      · exact Or.inr (by omega)
    · exact Or.inr (by omega)

end MarkRun

/-- The stack as a set. -/
def onStack (stack : List Nat) : Set Nat := {b | b ∈ stack}

theorem onStack_nil : onStack [] = ∅ := by
  ext b
  simp [onStack]

theorem onStack_cons (block : Nat) (stack : List Nat) :
    onStack (block :: stack) = insert block (onStack stack) := by
  ext b
  simp [onStack]

theorem object_of_marked {h : Heap L} {block n : Nat} (hblock : block ∈ h.marked)
    (hn : h.chainBlocks block = some n) : h.Object block n :=
  object_of_chainBlocks hblock.1 (shape_eq_head.mpr (Or.inr hblock.2)) hn

/-- The loop over the words of a chain marks its successors. -/
theorem next_iff_child {h : Heap L} {block n b : Nat} (ho : h.Object block n) :
    h.next block b ↔ ∃ ptr ∈ h.blockWords block n, h.IsChild ptr b := by
  constructor
  · rintro ⟨m, ho', hchild⟩
    obtain rfl := ho.unique ho'
    exact hchild
  · exact fun hchild => ⟨n, ho, hchild⟩

/-- One round of the outer loop, and what the rest of the loop does with the stack. -/
theorem MarkRun.visit {h h₁ h' : Heap L} {block n : Nat} {stack stack₁ : List Nat}
    (hblock : block ∈ h.marked) (hstack : ∀ b ∈ stack, b ∈ h.marked)
    (hn : h.chainBlocks block = some n)
    (hchildren : ChildrenMarked h stack (h.blockWords block n) h₁ stack₁)
    (hrest : MarkRun h₁ (onStack stack₁) h') :
    MarkRun h (insert block (onStack stack)) h' where
  run := hchildren.run.trans hrest.run
  marks := by
    have ho := object_of_marked hblock hn
    have hmarks := hrest.marks
    rw [hchildren.run.next_eq, hchildren.run.walks_eq] at hmarks
    refine Marks.visit hblock ⟨n, hn⟩ hchildren.run.marked_subset ?_ ?_ ?_ hmarks hstack
    · intro b hb
      obtain ⟨ptr, hptr, hchild⟩ := (next_iff_child ho).mp hb
      exact hchildren.children ptr hptr b hchild
    · intro b hb
      rcases hchildren.fresh b hb with hold | hchild
      · exact Or.inl hold
      · exact Or.inr ((next_iff_child ho).mpr hchild)
    · -- when nothing is dropped, a child that is newly marked is on the stack
      rintro hclean b hb (hold | hout)
      · exact hchildren.kept b hold
      · rcases hchildren.pushed b hb with hold | hpushed | hover
        · exact absurd hold hout
        · exact hpushed
        · rw [hrest.clean_before hclean] at hover
          cases hover
  overflow hover := hrest.overflow (hchildren.overflow hover)
  dropped hover := by
    have hle := hchildren.run.headCount_le
    have hle' := hrest.run.headCount_le
    rcases hrest.dropped hover with hover | hlt
    · rcases hchildren.dropped hover with hover | hlt
      · exact Or.inl hover
      · exact Or.inr (by omega)
    · exact Or.inr (by omega)

/-- All that is on the stack behind a round is marked. -/
theorem ChildrenMarked.stack_marked {h h₁ : Heap L} {stack ptrs stack₁ : List Nat}
    (hchildren : ChildrenMarked h stack ptrs h₁ stack₁) (hstack : ∀ b ∈ stack, b ∈ h.marked) :
    ∀ b ∈ stack₁, b ∈ h₁.marked := by
  intro b hb
  rcases hchildren.onStack b hb with hold | ⟨hmark, -⟩
  · exact hchildren.run.marked_subset (hstack b hold)
  · exact hmark

theorem markLoop_run {fuel : Nat} {h h' : Heap L} {block : Nat} {stack : List Nat}
    (hblock : block ∈ h.marked) (hstack : ∀ b ∈ stack, b ∈ h.marked)
    (hsome : markLoop fuel h block stack = some h') :
    MarkRun h (insert block (onStack stack)) h' := by
  induction fuel generalizing h block stack with
  | zero => cases hsome
  | succ fuel ih =>
      rw [markLoop] at hsome
      cases hn : h.chainBlocks block with
      | none =>
          rw [hn] at hsome
          cases hsome
      | some n =>
          have hchildren := markChildren_spec (h.blockWords block n) h stack
          rw [hn] at hsome
          dsimp only at hsome
          generalize markChildren h stack (h.blockWords block n) = round at hchildren hsome
          obtain ⟨h₁, stack₁⟩ := round
          dsimp only at hchildren
          have hmarked := hchildren.stack_marked hstack
          cases stack₁ with
          | nil =>
              -- nothing is left on the stack
              obtain rfl := Option.some.inj hsome
              have hend := MarkRun.refl h₁
              rw [← onStack_nil] at hend
              exact MarkRun.visit hblock hstack hn hchildren hend
          | cons block₁ stack₁ =>
              -- the rest of the loop visits the stack, and the new children on it
              have hrest := ih (hmarked block₁ (List.mem_cons_self ..))
                (fun b hb => hmarked b (List.mem_cons_of_mem _ hb)) hsome
              rw [← onStack_cons] at hrest
              exact MarkRun.visit hblock hstack hn hchildren hrest

/-- The loop ends, since each round takes a block off the stack, and a block is pushed only
when it is marked. All that it meets is in a set that is closed under the edges. -/
theorem markLoop_some {fuel : Nat} {h : Heap L} {block : Nat} {stack : List Nat} {R : Set Nat}
    (hclosed : ∀ a ∈ R, ∀ b, h.next a b → b ∈ R) (hwalks : ∀ a ∈ R, h.Walks a)
    (hblock : block ∈ h.marked) (hstack : ∀ b ∈ stack, b ∈ h.marked)
    (hblockR : block ∈ R) (hstackR : ∀ b ∈ stack, b ∈ R)
    (hfuel : h.headCount + stack.length < fuel) : ∃ h', markLoop fuel h block stack = some h' := by
  induction fuel generalizing h block stack with
  | zero => omega
  | succ fuel ih =>
      obtain ⟨n, hn⟩ := hwalks block hblockR
      have hchildren := markChildren_spec (h.blockWords block n) h stack
      rw [markLoop, hn]
      dsimp only
      generalize markChildren h stack (h.blockWords block n) = round at hchildren ⊢
      obtain ⟨h₁, stack₁⟩ := round
      dsimp only at hchildren
      cases stack₁ with
      | nil => exact ⟨h₁, rfl⟩
      | cons block₁ stack₁ =>
          have hmarked := hchildren.stack_marked hstack
          have hin : ∀ b ∈ block₁ :: stack₁, b ∈ R := by
            intro b hb
            rcases hchildren.onStack b hb with hold | ⟨-, hchild⟩
            · exact hstackR b hold
            · have ho := object_of_marked hblock hn
              exact hclosed block hblockR b ((next_iff_child ho).mpr hchild)
          -- a block is taken off the stack, and a push costs an unmarked head
          have hsize := hchildren.size
          simp only [List.length_cons] at hsize
          refine ih ?_ ?_ (hmarked block₁ (List.mem_cons_self ..))
            (fun b hb => hmarked b (List.mem_cons_of_mem _ hb)) (hin block₁ (List.mem_cons_self ..))
            (fun b hb => hin b (List.mem_cons_of_mem _ hb)) (by omega)
          · rw [hchildren.run.next_eq]
            exact hclosed
          · rw [hchildren.run.walks_eq]
            exact hwalks

theorem headCount_le_blocks (h : Heap L) : h.headCount ≤ L.blocks := by
  have hle := Finset.card_filter_le (Finset.range L.blocks) (h.kind · = .head)
  rwa [Finset.card_range] at hle

theorem gcMarkSubtree_run {h h' : Heap L} {block : Nat} (hblock : block ∈ h.marked)
    (hsome : h.gcMarkSubtree block = some h') : MarkRun h {block} h' := by
  have hrun := markLoop_run hblock (fun b hb => absurd hb List.not_mem_nil) hsome
  rwa [onStack_nil, ← Set.singleton_def] at hrun

/-- A set of blocks that are not left along the edges, and whose chains end in the table. -/
structure Safe (h : Heap L) (R : Set Nat) : Prop where
  closed : ∀ a ∈ R, ∀ b, h.next a b → b ∈ R
  walks : ∀ a ∈ R, h.Walks a

theorem Safe.marked {h h' : Heap L} {R : Set Nat} (hsafe : h.Safe R) (hm : Marked h h') :
    h'.Safe R := by
  refine ⟨?_, ?_⟩
  · rw [hm.next_eq]
    exact hsafe.closed
  · rw [hm.walks_eq]
    exact hsafe.walks

theorem gcMarkSubtree_some {h : Heap L} {block : Nat} {R : Set Nat} (hsafe : h.Safe R)
    (hblock : block ∈ h.marked) (hR : block ∈ R) : ∃ h', h.gcMarkSubtree block = some h' := by
  have hle := h.headCount_le_blocks
  exact markLoop_some hsafe.closed hsafe.walks hblock (fun b hb => absurd hb List.not_mem_nil) hR
    (fun b hb => absurd hb List.not_mem_nil) (by rw [List.length_nil]; omega)

/-! ## The rounds behind an overflow -/

/-- The scan visits all blocks that are marked when it begins. -/
theorem traceMarked_run {h h' : Heap L} {blocks : List Nat} (hlt : ∀ b ∈ blocks, b < L.blocks)
    (hsome : traceMarked blocks h = some h') :
    ∃ todo, MarkRun h todo h' ∧ ∀ b ∈ blocks, b ∈ h.marked → b ∈ todo := by
  induction blocks generalizing h with
  | nil =>
      obtain rfl := Option.some.inj hsome
      exact ⟨∅, MarkRun.refl h, fun b hb => absurd hb List.not_mem_nil⟩
  | cons block blocks ih =>
      rw [List.forall_mem_cons] at hlt
      rw [traceMarked] at hsome
      by_cases hmark : h.kind block = .mark
      · rw [if_pos hmark, Option.bind_eq_some_iff] at hsome
        obtain ⟨h₁, hfirst, hrest⟩ := hsome
        have hrun := gcMarkSubtree_run ⟨hlt.1, hmark⟩ hfirst
        obtain ⟨todo, hrun', htodo⟩ := ih hlt.2 hrest
        refine ⟨{block} ∪ todo, hrun.trans hrun', ?_⟩
        intro b hb hbmark
        rcases List.mem_cons.mp hb with rfl | hb
        · exact Or.inl rfl
        · exact Or.inr (htodo b hb (hrun.run.marked_subset hbmark))
      · -- what is not marked when the scan comes by was not marked when it began
        rw [if_neg hmark] at hsome
        obtain ⟨todo, hrun, htodo⟩ := ih hlt.2 hsome
        refine ⟨todo, hrun, ?_⟩
        intro b hb hbmark
        rcases List.mem_cons.mp hb with rfl | hb
        · exact absurd hbmark.2 hmark
        · exact htodo b hb hbmark

/-- The marking stays in a set that it begins in. -/
theorem MarkRun.subset_safe {h h' : Heap L} {todo R : Set Nat} (hr : MarkRun h todo h')
    (hsafe : h.Safe R) (hR : h.marked ⊆ R) : h'.marked ⊆ R := by
  refine hr.marks.sound.trans ?_
  exact reached_subset hR hsafe.closed

theorem traceMarked_some {h : Heap L} {R : Set Nat} (hsafe : h.Safe R) (hR : h.marked ⊆ R)
    {blocks : List Nat} (hlt : ∀ b ∈ blocks, b < L.blocks) :
    ∃ h', traceMarked blocks h = some h' := by
  induction blocks generalizing h with
  | nil => exact ⟨h, rfl⟩
  | cons block blocks ih =>
      rw [List.forall_mem_cons] at hlt
      rw [traceMarked]
      by_cases hmark : h.kind block = .mark
      · have hblock : block ∈ h.marked := ⟨hlt.1, hmark⟩
        obtain ⟨h₁, hfirst⟩ := gcMarkSubtree_some hsafe hblock (hR hblock)
        have hrun := gcMarkSubtree_run hblock hfirst
        rw [if_pos hmark, hfirst, Option.bind_some]
        exact ih (hsafe.marked hrun.run) (hrun.subset_safe hsafe hR) hlt.2
      · rw [if_neg hmark]
        exact ih hsafe hR hlt.2

/-- What the marking has come to, for some roots: roots are marked, marked is only what they
reach, and when nothing was dropped all that is marked is done. -/
structure Tracing (h : Heap L) (roots : Set Nat) : Prop where
  seeded : roots ⊆ h.marked
  sound : h.marked ⊆ Reached h.next roots
  done : h.stackOverflow = false → ∀ a ∈ h.marked, Done h.next h.Walks h.marked a

theorem Tracing.eq_reached {h : Heap L} {roots : Set Nat} (ht : h.Tracing roots)
    (hclean : h.stackOverflow = false) : h.marked = Reached h.next roots :=
  Reach.eq_reached ht.seeded ht.sound (ht.done hclean)

/-- Another part of the marking, behind which all that was not done has been visited. -/
theorem MarkRun.tracing {h h' : Heap L} {roots todo : Set Nat} (hr : MarkRun h todo h')
    (hseeded : roots ⊆ h.marked) (hsound : h.marked ⊆ Reached h.next roots)
    (hvisit : h'.stackOverflow = false → ∀ a ∈ h.marked, a ∈ todo ∨
      Done h.next h.Walks h.marked a) :
    h'.Tracing roots where
  seeded := hseeded.trans hr.marks.subset
  sound := by
    rw [hr.run.next_eq]
    refine hr.marks.sound.trans ?_
    rw [← reached_reached roots]
    exact reached_mono hsound
  done hclean := by
    rw [hr.run.next_eq, hr.run.walks_eq]
    exact hr.marks.all_done hclean (hvisit hclean)

/-- A round begins with the flag cleared. -/
theorem Marked.clear (h : Heap L) : Marked h { h with stackOverflow := false } :=
  ⟨rfl, fun _ => rfl, fun _ => Or.inl rfl⟩

/-- A round of `gc_deal_with_stack_overflow`. -/
theorem Tracing.round {h h' : Heap L} {roots : Set Nat} (ht : h.Tracing roots)
    (hsome : traceMarked (List.range L.blocks) { h with stackOverflow := false } = some h') :
    h'.Tracing roots ∧ Marked h h' ∧ (h'.stackOverflow = true → h'.headCount < h.headCount) := by
  obtain ⟨todo, hrun, htodo⟩ := traceMarked_run (fun b hb => List.mem_range.mp hb) hsome
  refine ⟨hrun.tracing ht.seeded ?_ ?_, (Marked.clear h).trans hrun.run, ?_⟩
  · rw [(Marked.clear h).next_eq]
    exact ht.sound
  · -- the scan goes over all blocks
    intro _ a ha
    exact Or.inl (htodo a (List.mem_range.mpr ha.1) ha)
  · -- the flag was cleared, so this round has dropped a head
    intro hover
    rcases hrun.dropped hover with hfalse | hlt
    · cases hfalse
    · exact hlt

theorem dealLoop_run {fuel : Nat} {h h' : Heap L} {roots : Set Nat} (ht : h.Tracing roots)
    (hsome : dealLoop fuel h = some h') :
    Marked h h' ∧ h'.Tracing roots ∧ h'.stackOverflow = false := by
  induction fuel generalizing h with
  | zero => cases hsome
  | succ fuel ih =>
      rw [dealLoop] at hsome
      cases hover : h.stackOverflow with
      | false =>
          rw [hover, if_neg Bool.false_ne_true] at hsome
          obtain rfl := Option.some.inj hsome
          exact ⟨Marked.refl h, ht, hover⟩
      | true =>
          rw [hover, if_pos rfl, Option.bind_eq_some_iff] at hsome
          obtain ⟨h₁, hround, hrest⟩ := hsome
          obtain ⟨ht₁, hm₁, -⟩ := ht.round hround
          obtain ⟨hm, ht', hclean⟩ := ih ht₁ hrest
          exact ⟨hm₁.trans hm, ht', hclean⟩

/-- Each round that overflows again has marked a block that was not marked before. -/
theorem dealLoop_some {fuel : Nat} {h : Heap L} {roots R : Set Nat} (hsafe : h.Safe R)
    (hR : roots ⊆ R) (ht : h.Tracing roots) (hfuel : h.headCount + h.stackOverflow.toNat < fuel) :
    ∃ h', dealLoop fuel h = some h' := by
  induction fuel generalizing h with
  | zero => omega
  | succ fuel ih =>
      rw [dealLoop]
      cases hover : h.stackOverflow with
      | false => exact ⟨h, rfl⟩
      | true =>
          have hmarked : h.marked ⊆ R := ht.sound.trans (reached_subset hR hsafe.closed)
          obtain ⟨h₁, hround⟩ := traceMarked_some (hsafe.marked (Marked.clear h)) hmarked
            fun b hb => List.mem_range.mp hb
          obtain ⟨ht₁, hm₁, hdropped⟩ := ht.round hround
          rw [if_pos rfl, hround, Option.bind_some]
          refine ih (hsafe.marked hm₁) ht₁ ?_
          -- a round that overflows again leaves fewer unmarked heads, and the last one the flag
          have hle := hm₁.headCount_le
          rw [hover, Bool.toNat_true] at hfuel
          cases hover₁ : h₁.stackOverflow with
          | false =>
              rw [Bool.toNat_false]
              omega
          | true =>
              have hlt := hdropped hover₁
              rw [Bool.toNat_true]
              omega

/-- After an overflow too, marked is what the roots reach. -/
theorem gcDealWithStackOverflow_run {h h' : Heap L} {roots : Set Nat} (ht : h.Tracing roots)
    (hsome : h.gcDealWithStackOverflow = some h') :
    Marked h h' ∧ h'.marked = Reached h.next roots ∧ ∀ a ∈ h'.marked, h.Walks a := by
  obtain ⟨hm, ht', hclean⟩ := dealLoop_run ht hsome
  refine ⟨hm, ?_, ?_⟩
  · rw [ht'.eq_reached hclean, hm.next_eq]
  · rw [← hm.walks_eq]
    exact fun a ha => (ht'.done hclean a ha).visited

theorem gcDealWithStackOverflow_some {h : Heap L} {roots R : Set Nat} (hsafe : h.Safe R)
    (hR : roots ⊆ R) (ht : h.Tracing roots) : ∃ h', h.gcDealWithStackOverflow = some h' := by
  have hle := h.headCount_le_blocks
  have hone := Bool.toNat_le h.stackOverflow
  exact dealLoop_some hsafe hR ht (by omega)

/-! ## Roots -/

/-- The heads that root words point to. -/
def rootBlocks (h : Heap L) (ptrs : List Nat) : Set Nat := {b | ∃ ptr ∈ ptrs, h.IsChild ptr b}

theorem rootBlocks_cons (h : Heap L) (ptr : Nat) (ptrs : List Nat) :
    h.rootBlocks (ptr :: ptrs) = h.rootBlocks [ptr] ∪ h.rootBlocks ptrs := by
  ext b
  simp [rootBlocks]

theorem Marked.rootBlocks_eq {h h' : Heap L} (hm : Marked h h') (ptrs : List Nat) :
    h'.rootBlocks ptrs = h.rootBlocks ptrs := by
  ext b
  simp only [rootBlocks, IsChild, hm.shape]

/-- A root that is no pointer to an unmarked head is marked already, or none. -/
theorem Tracing.skip {h : Heap L} {roots : Set Nat} {ptr : Nat} (ht : h.Tracing roots)
    (hskip : ¬ (L.verifyPtr ptr = true ∧ h.kind (L.blockFromPtr ptr) = .head)) :
    h.Tracing (roots ∪ h.rootBlocks [ptr]) where
  seeded := by
    refine Set.union_subset ht.seeded ?_
    rintro b ⟨p, hp, hchild⟩
    have hnone : ChildrenMarked h [] [ptr] h [] := ChildrenMarked.skip hskip
    exact hnone.children p hp b hchild
  sound := ht.sound.trans (reached_mono Set.subset_union_left)
  done := ht.done

/-- A root that is a pointer to an unmarked head: this is marked, and its subtree. -/
theorem Tracing.root {h h' : Heap L} {roots : Set Nat} {ptr : Nat} (ht : h.Tracing roots)
    (hverify : L.verifyPtr ptr = true) (hhead : h.kind (L.blockFromPtr ptr) = .head)
    (hr : MarkRun (h.setMark (L.blockFromPtr ptr)) {L.blockFromPtr ptr} h') :
    h'.Tracing (roots ∪ h.rootBlocks [ptr]) := by
  have hlt := L.blockFromPtr_lt hverify
  have hset := Marked.setMark hlt hhead
  have hroot : h.rootBlocks [ptr] = {L.blockFromPtr ptr} := by
    ext b
    constructor
    · rintro ⟨p, hp, -, rfl, -⟩
      rw [List.mem_singleton] at hp
      rw [hp]
      rfl
    · rintro rfl
      exact ⟨ptr, List.mem_singleton_self ptr, hverify, rfl, shape_eq_head.mpr (Or.inl hhead)⟩
  rw [hroot]
  apply hr.tracing
  · rw [marked_setMark hlt]
    rintro b (hb | rfl)
    · exact Set.mem_insert_of_mem _ (ht.seeded hb)
    · exact Set.mem_insert _ _
  · rw [marked_setMark hlt, hset.next_eq]
    rintro b (rfl | hb)
    · exact subset_reached _ (Or.inr rfl)
    · exact reached_mono Set.subset_union_left (ht.sound hb)
  · -- the root has been visited now, and the others were done before
    intro hclean a ha
    rw [marked_setMark hlt] at ha ⊢
    rw [hset.next_eq, hset.walks_eq]
    rcases ha with rfl | ha
    · exact Or.inl rfl
    · exact Or.inr ((ht.done (hr.clean_before hclean) a ha).mono (Set.subset_insert _ _))

/-- A root is marked. -/
theorem mem_marked_setMark {h : Heap L} {ptr : Nat} (hverify : L.verifyPtr ptr = true) :
    L.blockFromPtr ptr ∈ (h.setMark (L.blockFromPtr ptr)).marked := by
  rw [marked_setMark (L.blockFromPtr_lt hverify)]
  exact Set.mem_insert _ _

theorem gcCollectRoot_cons {h : Heap L} {ptr : Nat} (ptrs : List Nat)
    (htake : L.verifyPtr ptr = true ∧ h.kind (L.blockFromPtr ptr) = .head) :
    gcCollectRoot (ptr :: ptrs) h =
      ((h.setMark (L.blockFromPtr ptr)).gcMarkSubtree (L.blockFromPtr ptr)).bind
        (gcCollectRoot ptrs) := by
  rw [gcCollectRoot, if_pos htake]
  rfl

theorem gcCollectRoot_run {h h' : Heap L} {roots : Set Nat} {ptrs : List Nat}
    (ht : h.Tracing roots) (hsome : gcCollectRoot ptrs h = some h') :
    Marked h h' ∧ h'.Tracing (roots ∪ h.rootBlocks ptrs) := by
  induction ptrs generalizing h roots with
  | nil =>
      obtain rfl := Option.some.inj hsome
      have hempty : h.rootBlocks [] = ∅ := by
        ext b
        simp [rootBlocks]
      rw [hempty, Set.union_empty]
      exact ⟨Marked.refl h, ht⟩
  | cons ptr ptrs ih =>
      rw [rootBlocks_cons, ← Set.union_assoc]
      by_cases htake : L.verifyPtr ptr = true ∧ h.kind (L.blockFromPtr ptr) = .head
      · rw [gcCollectRoot_cons ptrs htake, Option.bind_eq_some_iff] at hsome
        obtain ⟨h₁, hfirst, hrest⟩ := hsome
        have hset := Marked.setMark (L.blockFromPtr_lt htake.1) htake.2
        have hrun := gcMarkSubtree_run (mem_marked_setMark htake.1) hfirst
        have hm₁ := hset.trans hrun.run
        obtain ⟨hm, ht'⟩ := ih (ht.root htake.1 htake.2 hrun) hrest
        rw [hm₁.rootBlocks_eq] at ht'
        exact ⟨hm₁.trans hm, ht'⟩
      · -- no pointer into the heap, or to a head that is marked
        rw [gcCollectRoot, if_neg htake] at hsome
        exact ih (ht.skip htake) hsome

theorem gcCollectRoot_some {h : Heap L} {R : Set Nat} {ptrs : List Nat} (hsafe : h.Safe R)
    (hmarked : h.marked ⊆ R) (hR : h.rootBlocks ptrs ⊆ R) :
    ∃ h', gcCollectRoot ptrs h = some h' := by
  induction ptrs generalizing h with
  | nil => exact ⟨h, rfl⟩
  | cons ptr ptrs ih =>
      rw [rootBlocks_cons, Set.union_subset_iff] at hR
      by_cases htake : L.verifyPtr ptr = true ∧ h.kind (L.blockFromPtr ptr) = .head
      · have hlt := L.blockFromPtr_lt htake.1
        have hset := Marked.setMark hlt htake.2
        have hroot : L.blockFromPtr ptr ∈ R :=
          hR.1 ⟨ptr, List.mem_singleton_self ptr, htake.1, rfl, shape_eq_head.mpr (Or.inl htake.2)⟩
        have hsafe₁ := hsafe.marked hset
        have hmem := mem_marked_setMark (h := h) htake.1
        obtain ⟨h₁, hfirst⟩ := gcMarkSubtree_some hsafe₁ hmem hroot
        have hrun := gcMarkSubtree_run hmem hfirst
        rw [gcCollectRoot_cons ptrs htake, hfirst, Option.bind_some]
        refine ih (hsafe₁.marked hrun.run) (hrun.subset_safe hsafe₁ ?_) ?_
        · rw [marked_setMark hlt]
          exact Set.insert_subset hroot hmarked
        · rw [(hset.trans hrun.run).rootBlocks_eq]
          exact hR.2
      · rw [gcCollectRoot, if_neg htake]
        exact ih hsafe hmarked hR.2

end EfiLvgl.Gc.Heap
