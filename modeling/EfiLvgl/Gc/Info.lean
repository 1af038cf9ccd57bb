import EfiLvgl.Gc.Store

/-!
# EfiLvgl.Gc.Info — `gc_info`

`gc_info` goes over the blocks once and counts four things at a time: blocks in use and free ones,
chains of one and of two blocks, the longest chain and the longest run of free blocks. Each has
its invariant here (`Counts`, `Chains`, `Runs`), and `gcInfo_correct` puts them together: on a
well-formed heap the numbers are exact, and `maxFree` is the largest size that `gc_alloc` finds
room for.
-/

namespace EfiLvgl.Gc

/-- `gc_info_t` -/
structure GcInfo where
  total : Nat
  used : Nat
  free : Nat
  maxFree : Nat
  num1block : Nat
  num2block : Nat
  maxBlock : Nat
deriving DecidableEq, Repr

/-- The numbers and the two lengths of the loop. -/
structure InfoLoop where
  info : GcInfo
  len : Nat
  lenFree : Nat
deriving DecidableEq, Repr

namespace Heap

open EfiLvgl.Streak

variable {L : Layout}

/-- The switch on the kind of a block. -/
def countKind (s : InfoLoop) : Kind → InfoLoop
  | .free => { s with info.free := s.info.free + 1, lenFree := s.lenFree + 1, len := 0 }
  | .head => { s with info.used := s.info.used + 1, len := 1 }
  | .tail => { s with info.used := s.info.used + 1, len := s.len + 1 }
  | .mark => s

/-- The chain that ends, if there is one. -/
def countChain (s : InfoLoop) : InfoLoop :=
  let s :=
    if s.len = 1 then { s with info.num1block := s.info.num1block + 1 }
    else if s.len = 2 then { s with info.num2block := s.info.num2block + 1 }
    else s
  if s.info.maxBlock < s.len then { s with info.maxBlock := s.len } else s

/-- The free blocks before a head or the end of the heap. -/
def countFree (s : InfoLoop) : InfoLoop :=
  let s := if s.info.maxFree < s.lenFree then { s with info.maxFree := s.lenFree } else s
  { s with lenFree := 0 }

/-- What is done when the kind of the next block is known. -/
def countNext (finish : Bool) (kind : Kind) (s : InfoLoop) : InfoLoop :=
  if finish || kind == .free || kind == .head then
    if finish || kind == .head then countFree (countChain s) else countChain s
  else s

/-- One round of the loop. -/
def infoStep (h : Heap L) (s : InfoLoop) (block : Nat) : InfoLoop :=
  let finish := decide (block + 1 = L.blocks)
  countNext finish (if finish then h.kind block else h.kind (block + 1))
    (countKind s (h.kind block))

def infoLoop (h : Heap L) (k : Nat) : InfoLoop :=
  (List.range k).foldl (infoStep h) ⟨⟨L.poolEnd - L.poolStart, 0, 0, 0, 0, 0, 0⟩, 0, 0⟩

/-- `gc_info`. A heap without blocks has no last one, and the loop does not end. -/
def gcInfo (h : Heap L) : Option GcInfo :=
  if L.blocks = 0 then none
  else
    let info := (h.infoLoop L.blocks).info
    some { info with
      used := info.used * L.bytesPerBlock
      free := info.free * L.bytesPerBlock }

theorem infoLoop_succ (h : Heap L) (k : Nat) :
    h.infoLoop (k + 1) = h.infoStep (h.infoLoop k) k := by
  rw [infoLoop, List.range_succ, List.foldl_append]
  rfl

/-! ## Blocks in use and free ones -/

def usedBlocks (h : Heap L) (k : Nat) : Nat :=
  ((Finset.range k).filter (h.kind · ≠ .free)).card

def freeBlocks (h : Heap L) (k : Nat) : Nat :=
  ((Finset.range k).filter (h.kind · = .free)).card

theorem usedBlocks_add_freeBlocks (h : Heap L) (k : Nat) : h.usedBlocks k + h.freeBlocks k = k := by
  rw [usedBlocks, freeBlocks, Nat.add_comm, Finset.card_filter_add_card_filter_not,
    Finset.card_range]

/-- The state of the loop has counted the blocks. -/
structure Counts (h : Heap L) (k : Nat) (s : InfoLoop) : Prop where
  total : s.info.total = L.poolEnd - L.poolStart
  used : s.info.used = h.usedBlocks k
  free : s.info.free = h.freeBlocks k

theorem countChain_counts (s : InfoLoop) : (countChain s).info.total = s.info.total ∧
    (countChain s).info.used = s.info.used ∧ (countChain s).info.free = s.info.free := by
  unfold countChain
  dsimp only
  split_ifs <;> exact ⟨rfl, rfl, rfl⟩

theorem countFree_counts (s : InfoLoop) : (countFree s).info.total = s.info.total ∧
    (countFree s).info.used = s.info.used ∧ (countFree s).info.free = s.info.free := by
  unfold countFree
  dsimp only
  split_ifs <;> exact ⟨rfl, rfl, rfl⟩

theorem countNext_counts (finish : Bool) (kind : Kind) (s : InfoLoop) :
    (countNext finish kind s).info.total = s.info.total ∧
      (countNext finish kind s).info.used = s.info.used ∧
      (countNext finish kind s).info.free = s.info.free := by
  obtain ⟨htotal, hused, hfree⟩ := countChain_counts s
  obtain ⟨htotal', hused', hfree'⟩ := countFree_counts (countChain s)
  unfold countNext
  split_ifs
  · exact ⟨htotal'.trans htotal, hused'.trans hused, hfree'.trans hfree⟩
  · exact ⟨htotal, hused, hfree⟩
  · exact ⟨rfl, rfl, rfl⟩

theorem Counts.step {h : Heap L} (hwf : h.WellFormed) {k : Nat} (hk : k < L.blocks)
    {s : InfoLoop} (hs : h.Counts k s) : h.Counts (k + 1) (h.infoStep s k) := by
  obtain ⟨htotal, hused, hfree⟩ := countNext_counts (decide (k + 1 = L.blocks))
    (if decide (k + 1 = L.blocks) then h.kind k else h.kind (k + 1)) (countKind s (h.kind k))
  have hu : h.usedBlocks (k + 1) = h.usedBlocks k + if h.kind k ≠ .free then 1 else 0 := by
    rw [usedBlocks, Finset.range_add_one, Finset.filter_insert]
    split
    · rw [Finset.card_insert_of_notMem (by simp)]
      rfl
    · rfl
  have hf : h.freeBlocks (k + 1) = h.freeBlocks k + if h.kind k = .free then 1 else 0 := by
    rw [freeBlocks, Finset.range_add_one, Finset.filter_insert]
    split
    · rw [Finset.card_insert_of_notMem (by simp)]
      rfl
    · rfl
  refine ⟨htotal.trans ?_, hused.trans ?_, hfree.trans ?_⟩
  · rw [← hs.total]
    -- the sum is left alone by the switch
    cases h.kind k <;> rfl
  · rw [hu, ← hs.used]
    cases hcase : h.kind k with
    | mark => exact absurd hcase (hwf.unmarked k hk)
    | free => rfl
    | head => rfl
    | tail => rfl
  · rw [hf, ← hs.free]
    cases hcase : h.kind k with
    | mark => exact absurd hcase (hwf.unmarked k hk)
    | free => rfl
    | head => rfl
    | tail => rfl

/-! ## Chains -/

/-- The number of chains of `m` blocks that end at or before a block. -/
noncomputable def ended (h : Heap L) (m k : Nat) : Nat :=
  ((Finset.range L.blocks).filter fun b => h.arena.size b = some m ∧ b + m ≤ k).card

/-- Two objects with the same end are the same. -/
theorem Object.eq_of_end {h : Heap L} {b c m n : Nat} (ho : h.Object b n) (ho' : h.Object c m)
    (hend : b + n = c + m) : b = c ∧ n = m := by
  have hpos := ho.pos
  have hpos' := ho'.pos
  by_cases hbc : b = c
  · exact ⟨hbc, by omega⟩
  · have := ho.apart ho' hbc
    omega

theorem ended_succ_of_object {h : Heap L} {b n k : Nat} (ho : h.Object b n) (hend : b + n = k + 1)
    (m : Nat) : h.ended m (k + 1) = h.ended m k + if n = m then 1 else 0 := by
  by_cases hnm : n = m
  · subst hnm
    rw [if_pos rfl, ended, ended, ← Finset.card_insert_of_notMem (a := b)]
    · congr 1
      ext c
      simp only [Finset.mem_insert, Finset.mem_filter, Finset.mem_range, arena_size]
      constructor
      · rintro ⟨hc, ho', hle⟩
        -- the only chain that ends here is `b`
        by_cases hlast : c + n ≤ k
        · exact Or.inr ⟨hc, ho', hlast⟩
        · exact Or.inl (ho'.eq_of_end ho (by omega)).1
      · rintro (rfl | ⟨hc, ho', hle⟩)
        · exact ⟨ho.lt, ho, by omega⟩
        · exact ⟨hc, ho', by omega⟩
    · simp only [Finset.mem_filter, not_and]
      intro _ _
      omega
  · rw [if_neg hnm]
    change h.ended m (k + 1) = h.ended m k
    rw [ended, ended]
    congr 1
    apply Finset.filter_congr
    intro c _
    rw [arena_size]
    constructor
    · rintro ⟨ho', hle⟩
      refine ⟨ho', ?_⟩
      -- a chain of another size that ended here would be `b`
      by_contra hlast
      exact hnm (ho.eq_of_end ho' (by omega)).2
    · rintro ⟨ho', hle⟩
      exact ⟨ho', by omega⟩

theorem ended_succ_of_not {h : Heap L} {k : Nat} (hno : ∀ b n, h.Object b n → b + n ≠ k + 1)
    (m : Nat) : h.ended m (k + 1) = h.ended m k := by
  rw [ended, ended]
  congr 1
  apply Finset.filter_congr
  intro c _
  rw [arena_size]
  constructor
  · rintro ⟨ho, hle⟩
    have := hno c m ho
    exact ⟨ho, by omega⟩
  · rintro ⟨ho, hle⟩
    exact ⟨ho, by omega⟩

/-- A chain up to a block, of which more may come. -/
structure Begun (h : Heap L) (k len : Nat) : Prop where
  pos : 0 < len
  begun : ∃ b, b + len = k ∧ h.shape b = .head ∧ ∀ c, b < c → c < k → h.kind c = .tail

/-- The state of the loop has counted the chains. -/
structure Chains (h : Heap L) (k : Nat) (s : InfoLoop) : Prop where
  len : k < L.blocks → h.kind k = .tail → h.Begun k s.len
  one : s.info.num1block = h.ended 1 k
  two : s.info.num2block = h.ended 2 k
  le : ∀ b n, h.Object b n → b + n ≤ k → n ≤ s.info.maxBlock
  attained : s.info.maxBlock = 0 ∨ ∃ b, h.Object b s.info.maxBlock

/-- Behind the switch, the chain with the block is begun. -/
theorem Chains.begun {h : Heap L} (hwf : h.WellFormed) {k : Nat} (hk : k < L.blocks)
    {s : InfoLoop} (hs : h.Chains k s) :
    h.kind k = .free ∧ (countKind s (h.kind k)).len = 0 ∨
      h.kind k ≠ .free ∧ h.Begun (k + 1) (countKind s (h.kind k)).len := by
  cases hcase : h.kind k with
  | free => exact Or.inl ⟨rfl, rfl⟩
  | head =>
      refine Or.inr ⟨Kind.noConfusion, Nat.one_pos, k, rfl, shape_eq_head.mpr (Or.inl hcase), ?_⟩
      intro c hkc hck
      omega
  | tail =>
      -- one more block of the chain that is being counted
      obtain ⟨hpos, b, hb, hhead, htails⟩ := hs.len hk hcase
      refine Or.inr ⟨Kind.noConfusion, Nat.succ_pos _, b, ?_, hhead, ?_⟩
      · change b + (s.len + 1) = k + 1
        omega
      · intro c hbc hck
        by_cases hlast : c = k
        · rw [hlast]
          exact hcase
        · exact htails c hbc (by omega)
  | mark => exact absurd hcase (hwf.unmarked k hk)

theorem countKind_chains (s : InfoLoop) (kind : Kind) :
    (countKind s kind).info.num1block = s.info.num1block ∧
      (countKind s kind).info.num2block = s.info.num2block ∧
      (countKind s kind).info.maxBlock = s.info.maxBlock := by
  cases kind <;> exact ⟨rfl, rfl, rfl⟩

theorem countChain_chains (s : InfoLoop) :
    (countChain s).info.num1block = s.info.num1block + (if s.len = 1 then 1 else 0) ∧
      (countChain s).info.num2block = s.info.num2block + (if s.len = 2 then 1 else 0) ∧
      (countChain s).info.maxBlock = max s.info.maxBlock s.len ∧
      (countChain s).len = s.len := by
  unfold countChain
  dsimp only
  split_ifs <;> simp_all <;> omega

theorem countFree_chains (s : InfoLoop) :
    (countFree s).info.num1block = s.info.num1block ∧
      (countFree s).info.num2block = s.info.num2block ∧
      (countFree s).info.maxBlock = s.info.maxBlock ∧ (countFree s).len = s.len := by
  unfold countFree
  dsimp only
  split_ifs <;> exact ⟨rfl, rfl, rfl, rfl⟩

/-- The chain that ends here is counted when the next block is no tail block. -/
theorem countNext_chains {finish : Bool} {kind : Kind} (s : InfoLoop)
    (hends : (finish || kind == .free || kind == .head) = true) :
    (countNext finish kind s).info.num1block =
        s.info.num1block + (if s.len = 1 then 1 else 0) ∧
      (countNext finish kind s).info.num2block =
        s.info.num2block + (if s.len = 2 then 1 else 0) ∧
      (countNext finish kind s).info.maxBlock = max s.info.maxBlock s.len := by
  obtain ⟨hone, htwo, hmax, -⟩ := countChain_chains s
  obtain ⟨hone', htwo', hmax', -⟩ := countFree_chains (countChain s)
  rw [countNext, if_pos hends]
  split
  · exact ⟨hone'.trans hone, htwo'.trans htwo, hmax'.trans hmax⟩
  · exact ⟨hone, htwo, hmax⟩

theorem countNext_len (finish : Bool) (kind : Kind) (s : InfoLoop) :
    (countNext finish kind s).len = s.len := by
  obtain ⟨-, -, -, hlen⟩ := countChain_chains s
  obtain ⟨-, -, -, hlen'⟩ := countFree_chains (countChain s)
  unfold countNext
  split_ifs
  · exact hlen'.trans hlen
  · exact hlen
  · rfl

/-- The block ends an object unless it is free, or the next one is a tail block. -/
theorem not_ended {h : Heap L} {k : Nat} (hwhy : h.kind k = .free ∨
    k + 1 < L.blocks ∧ h.kind (k + 1) = .tail) : ∀ b n, h.Object b n → b + n ≠ k + 1 := by
  intro b n ho hend
  have hpos := ho.pos
  rcases hwhy with hfree | ⟨hlt, htail⟩
  · -- an object has no free block
    exact ho.not_free (by omega) (by omega) hfree
  · rw [← hend] at hlt htail
    exact ho.last hlt htail

theorem Chains.step {h : Heap L} (hwf : h.WellFormed) {k : Nat} (hk : k < L.blocks)
    {s : InfoLoop} (hs : h.Chains k s) : h.Chains (k + 1) (h.infoStep s k) := by
  obtain ⟨hone, htwo, hmax⟩ := countKind_chains s (h.kind k)
  have hbegun := hs.begun hwf hk
  rw [infoStep]
  generalize countKind s (h.kind k) = s₁ at hone htwo hmax hbegun ⊢
  have hlen := countNext_len (decide (k + 1 = L.blocks))
    (if decide (k + 1 = L.blocks) = true then h.kind k else h.kind (k + 1)) s₁
  -- a tail block goes on with the chain that this block is in
  have hafter : k + 1 < L.blocks → h.kind (k + 1) = .tail → h.Begun (k + 1) s₁.len := by
    intro hlt htail
    rcases hbegun with ⟨hfree, -⟩ | ⟨-, hb⟩
    · obtain ⟨a, ha, hne⟩ := hwf.tails (k + 1) hlt htail
      exact absurd hfree (by rwa [Nat.add_right_cancel ha])
    · exact hb
  by_cases hends : (decide (k + 1 = L.blocks) ||
      (if decide (k + 1 = L.blocks) = true then h.kind k else h.kind (k + 1)) == .free ||
      (if decide (k + 1 = L.blocks) = true then h.kind k else h.kind (k + 1)) == .head) = true
  · obtain ⟨hone', htwo', hmax'⟩ := countNext_chains s₁ hends
    rw [hone, hs.one] at hone'
    rw [htwo, hs.two] at htwo'
    rw [hmax] at hmax'
    -- the longest one so far, or this one
    rcases hbegun with ⟨hfree, hzero⟩ | ⟨hne, hpos, b, hb, hhead, htails⟩
    · -- no chain ends at a free block
      have hno := not_ended (Or.inl hfree)
      rw [hzero] at hone' htwo' hmax'
      rw [Nat.max_zero] at hmax'
      refine ⟨fun hlt htail => hlen ▸ hafter hlt htail, ?_, ?_, ?_, ?_⟩
      · rw [hone', ended_succ_of_not hno]
        rfl
      · rw [htwo', ended_succ_of_not hno]
        rfl
      · intro c n ho hle
        rw [hmax']
        exact hs.le c n ho (by have := hno c n ho; omega)
      · rw [hmax']
        exact hs.attained
    · -- the next block is no tail block, so the chain is a whole object
      have ho : h.Object b s₁.len := by
        refine ⟨hhead, hpos, by omega, fun c hbc hcn => htails c hbc (by omega), ?_⟩
        intro hlt htail
        rw [hb] at hlt htail
        rw [decide_eq_false (show ¬ k + 1 = L.blocks by omega)] at hends
        simp [htail] at hends
      refine ⟨fun hlt htail => hlen ▸ hafter hlt htail, ?_, ?_, ?_, ?_⟩
      · rw [hone', ended_succ_of_object ho hb]
      · rw [htwo', ended_succ_of_object ho hb]
      · intro c n ho' hle
        rw [hmax']
        by_cases hlast : c + n = k + 1
        · rw [(ho'.eq_of_end ho (by omega)).2]
          exact Nat.le_max_right _ _
        · exact (hs.le c n ho' (by omega)).trans (Nat.le_max_left _ _)
      · rw [hmax']
        rcases Nat.le_total s.info.maxBlock s₁.len with hle | hle
        · rw [Nat.max_eq_right hle]
          exact Or.inr ⟨b, ho⟩
        · rw [Nat.max_eq_left hle]
          exact hs.attained
  · -- the chain goes on
    have hlt : k + 1 < L.blocks := by
      by_contra hge
      refine hends ?_
      rw [decide_eq_true (show k + 1 = L.blocks by omega)]
      rfl
    have htail : h.kind (k + 1) = .tail := by
      rw [decide_eq_false (show ¬ k + 1 = L.blocks by omega)] at hends
      cases hcase : h.kind (k + 1) with
      | tail => rfl
      | mark => exact absurd hcase (hwf.unmarked _ hlt)
      | free => simp [hcase] at hends
      | head => simp [hcase] at hends
    have hno := not_ended (Or.inr ⟨hlt, htail⟩)
    have hsame : countNext (decide (k + 1 = L.blocks))
        (if decide (k + 1 = L.blocks) = true then h.kind k else h.kind (k + 1)) s₁ = s₁ := by
      rw [countNext, if_neg hends]
    rw [hsame]
    refine ⟨hafter, ?_, ?_, ?_, ?_⟩
    · rw [hone, hs.one, ended_succ_of_not hno]
    · rw [htwo, hs.two, ended_succ_of_not hno]
    · intro c n ho hle
      rw [hmax]
      exact hs.le c n ho (by have := hno c n ho; omega)
    · rw [hmax]
      exact hs.attained

/-! ## Runs of free blocks -/

/-- The state of the loop has found the longest run of free blocks. -/
structure Runs (h : Heap L) (k : Nat) (s : InfoLoop) : Prop where
  lenFree : k < L.blocks → s.lenFree =
    if h.kind k = .free then streak (isFree h.tables 0) 0 k else 0
  last : k = L.blocks → s.lenFree = 0
  le : ∀ j, j ≤ k → streak (isFree h.tables 0) 0 j ≤ max s.info.maxFree s.lenFree
  attained : ∃ j, j ≤ k ∧ max s.info.maxFree s.lenFree = streak (isFree h.tables 0) 0 j

theorem isFree_zero {h : Heap L} {k : Nat} : isFree h.tables 0 k = decide (h.kind k = .free) := by
  rw [isFree, Nat.zero_add]
  rfl

/-- The counter of free blocks behind the switch. -/
theorem Runs.counted {h : Heap L} (hwf : h.WellFormed) {k : Nat} (hk : k < L.blocks)
    {s : InfoLoop} (hs : h.Runs k s) :
    (countKind s (h.kind k)).info.maxFree = s.info.maxFree ∧
      (countKind s (h.kind k)).lenFree = streak (isFree h.tables 0) 0 (k + 1) ∧
      (s.lenFree ≤ (countKind s (h.kind k)).lenFree) := by
  have hlen := hs.lenFree hk
  have hsucc : h.kind k ≠ .free → streak (isFree h.tables 0) 0 (k + 1) = 0 := by
    intro hne
    apply streak_succ_of_false
    rw [isFree_zero, decide_eq_false hne]
  cases hcase : h.kind k with
  | free =>
      have htrue : isFree h.tables 0 k = true := by
        rw [isFree_zero, decide_eq_true hcase]
      -- one more in the run
      rw [if_pos hcase] at hlen
      refine ⟨rfl, ?_, Nat.le_succ _⟩
      rw [streak_succ_of_true htrue, ← hlen]
      rfl
  | head =>
      rw [hcase, if_neg Kind.noConfusion] at hlen
      refine ⟨rfl, ?_, Nat.le_refl _⟩
      rw [hsucc (by rw [hcase]; exact Kind.noConfusion)]
      exact hlen
  | tail =>
      rw [hcase, if_neg Kind.noConfusion] at hlen
      refine ⟨rfl, ?_, Nat.le_refl _⟩
      rw [hsucc (by rw [hcase]; exact Kind.noConfusion)]
      exact hlen
  | mark => exact absurd hcase (hwf.unmarked k hk)

theorem countChain_runs (s : InfoLoop) : (countChain s).info.maxFree = s.info.maxFree ∧
    (countChain s).lenFree = s.lenFree := by
  unfold countChain
  dsimp only
  split_ifs <;> exact ⟨rfl, rfl⟩

theorem countFree_runs (s : InfoLoop) :
    (countFree s).info.maxFree = max s.info.maxFree s.lenFree ∧ (countFree s).lenFree = 0 := by
  unfold countFree
  dsimp only
  split_ifs with hlt
  · exact ⟨(Nat.max_eq_right (Nat.le_of_lt hlt)).symm, rfl⟩
  · exact ⟨(Nat.max_eq_left (Nat.le_of_not_lt hlt)).symm, rfl⟩

/-- The longest run is taken over at a head and at the end, and goes on otherwise. -/
theorem countNext_runs (finish : Bool) (kind : Kind) (s : InfoLoop) :
    (finish || kind == .head) = true ∧ (countNext finish kind s).lenFree = 0 ∧
        (countNext finish kind s).info.maxFree = max s.info.maxFree s.lenFree ∨
      (finish || kind == .head) = false ∧ (countNext finish kind s).lenFree = s.lenFree ∧
        (countNext finish kind s).info.maxFree = s.info.maxFree := by
  obtain ⟨hmax, hlen⟩ := countChain_runs s
  obtain ⟨hmax', hlen'⟩ := countFree_runs (countChain s)
  cases hcloses : finish || kind == .head with
  | true =>
      -- a head, or the end, closes the chain in front too
      have hends : (finish || kind == .free || kind == .head) = true := by
        rw [Bool.or_right_comm, hcloses, Bool.true_or]
      rw [countNext, if_pos hends, if_pos hcloses]
      refine Or.inl ⟨rfl, hlen', ?_⟩
      rw [hmax', hmax, hlen]
  | false =>
      refine Or.inr ⟨rfl, ?_⟩
      rw [countNext, hcloses, if_neg Bool.false_ne_true]
      split
      · exact ⟨hlen, hmax⟩
      · exact ⟨rfl, rfl⟩

theorem Runs.step {h : Heap L} (hwf : h.WellFormed) {k : Nat} (hk : k < L.blocks)
    {s : InfoLoop} (hs : h.Runs k s) : h.Runs (k + 1) (h.infoStep s k) := by
  obtain ⟨hmax, hstreak, hgrows⟩ := hs.counted hwf hk
  have hfree : h.kind k ≠ .free → (countKind s (h.kind k)).lenFree = 0 := by
    intro hne
    rw [hstreak]
    apply streak_succ_of_false
    rw [isFree_zero, decide_eq_false hne]
  rw [infoStep]
  generalize countKind s (h.kind k) = s₁ at hmax hstreak hgrows hfree ⊢
  have hle : ∀ j, j ≤ k + 1 →
      streak (isFree h.tables 0) 0 j ≤ max s₁.info.maxFree s₁.lenFree := by
    intro j hj
    rcases Nat.eq_or_lt_of_le hj with rfl | hlt
    · rw [← hstreak]
      exact Nat.le_max_right _ _
    · have := hs.le j (by omega)
      rw [hmax]
      omega
  have hattained : ∃ j, j ≤ k + 1 ∧
      max s₁.info.maxFree s₁.lenFree = streak (isFree h.tables 0) 0 j := by
    rcases Nat.le_total s₁.info.maxFree s₁.lenFree with hle | hle
    · rw [Nat.max_eq_right hle]
      exact ⟨k + 1, Nat.le_refl _, hstreak⟩
    · obtain ⟨j, hj, heq⟩ := hs.attained
      refine ⟨j, by omega, ?_⟩
      rw [← heq]
      omega
  -- the run is closed, or it goes on
  rcases countNext_runs (decide (k + 1 = L.blocks))
    (if decide (k + 1 = L.blocks) = true then h.kind k else h.kind (k + 1)) s₁ with
    ⟨hcloses, hlen, hmax'⟩ | ⟨hcloses, hlen, hmax'⟩
  · have hsame : max s₁.info.maxFree s₁.lenFree = max (max s₁.info.maxFree s₁.lenFree) 0 :=
      (Nat.max_zero _).symm
    refine ⟨?_, fun _ => hlen, ?_, ?_⟩
    · intro hlt
      rw [decide_eq_false (show ¬ k + 1 = L.blocks by omega)] at hcloses
      have hhead : h.kind (k + 1) = .head := by simpa using hcloses
      rw [hlen, hhead, if_neg Kind.noConfusion]
    · intro j hj
      rw [hlen, hmax', ← hsame]
      exact hle j hj
    · rw [hlen, hmax', ← hsame]
      exact hattained
  · have hlt : k + 1 < L.blocks := by
      by_contra hge
      rw [decide_eq_true (show k + 1 = L.blocks by omega)] at hcloses
      cases hcloses
    refine ⟨fun _ => ?_, fun hend => absurd hend (by omega), ?_, ?_⟩
    · rw [hlen]
      by_cases hnext : h.kind (k + 1) = .free
      · rw [if_pos hnext]
        exact hstreak
      · rw [if_neg hnext]
        -- otherwise the next block would be a tail block behind a free one
        apply hfree
        intro hkfree
        rw [decide_eq_false (show ¬ k + 1 = L.blocks by omega)] at hcloses
        cases hcase : h.kind (k + 1) with
        | free => exact hnext hcase
        | head => simp [hcase] at hcloses
        | mark => exact hwf.unmarked _ hlt hcase
        | tail =>
            obtain ⟨a, ha, hne⟩ := hwf.tails (k + 1) hlt hcase
            rw [← Nat.add_right_cancel ha] at hne
            exact hne hkfree
    · intro j hj
      rw [hlen, hmax']
      exact hle j hj
    · rw [hlen, hmax']
      exact hattained

/-! ## `gc_info` -/

theorem infoLoop_spec {h : Heap L} (hwf : h.WellFormed) {k : Nat} (hk : k ≤ L.blocks) :
    h.Counts k (h.infoLoop k) ∧ h.Chains k (h.infoLoop k) ∧ h.Runs k (h.infoLoop k) := by
  induction k with
  | zero =>
      have hended : ∀ m, h.ended m 0 = 0 := by
        intro m
        rw [ended, Finset.card_eq_zero, Finset.filter_eq_empty_iff]
        rintro b - ⟨hb, hle⟩
        have := h.arena.pos b m hb
        omega
      refine ⟨⟨rfl, rfl, rfl⟩, ⟨?_, (hended 1).symm, (hended 2).symm, ?_, Or.inl rfl⟩, ?_⟩
      · intro hlt htail
        -- the first block has none in front of which it could be the tail
        obtain ⟨a, ha, -⟩ := hwf.tails 0 hlt htail
        omega
      · intro b n ho hle
        have := ho.pos
        omega
      · refine ⟨?_, fun _ => rfl, ?_, 0, Nat.le_refl 0, rfl⟩
        · intro _
          split <;> rfl
        · intro j hj
          rw [Nat.le_zero.mp hj]
          exact Nat.zero_le _
  | succ k ih =>
      obtain ⟨hcounts, hchains, hruns⟩ := ih (by omega)
      rw [infoLoop_succ]
      exact ⟨hcounts.step hwf (by omega), hchains.step hwf (by omega), hruns.step hwf (by omega)⟩

/-- What the numbers of `gc_info` say. -/
structure Described (h : Heap L) (info : GcInfo) : Prop where
  total : info.total = L.blocks * L.bytesPerBlock
  used : info.used = h.usedBlocks L.blocks * L.bytesPerBlock
  free : info.free = h.freeBlocks L.blocks * L.bytesPerBlock
  sum : info.used + info.free = info.total
  num1block : info.num1block =
    ((Finset.range L.blocks).filter fun b => h.arena.size b = some 1).card
  num2block : info.num2block =
    ((Finset.range L.blocks).filter fun b => h.arena.size b = some 2).card
  maxBlock : ∀ n, 0 < n → (n ≤ info.maxBlock ↔ ∃ b m, n ≤ m ∧ h.Object b m)
  maxFree : ∀ n, 0 < n → (n ≤ info.maxFree ↔ ¬ h.Full n)

theorem ended_blocks (h : Heap L) (m : Nat) : h.ended m L.blocks =
    ((Finset.range L.blocks).filter fun b => h.arena.size b = some m).card := by
  rw [ended]
  congr 1
  apply Finset.filter_congr
  intro b _
  constructor
  · exact fun hb => hb.1
  · exact fun hb => ⟨hb, h.arena.le b m hb⟩

/-- The numbers of `gc_info` are exact, and `max_free` is the size of the largest allocation that
finds room. -/
theorem gcInfo_correct {h : Heap L} (hwf : h.WellFormed) (hblocks : 0 < L.blocks) :
    ∃ info, h.gcInfo = some info ∧ h.Described info := by
  obtain ⟨hcounts, hchains, hruns⟩ := infoLoop_spec hwf (Nat.le_refl L.blocks)
  rw [gcInfo, if_neg (Nat.ne_of_gt hblocks)]
  refine ⟨_, rfl, ?_⟩
  -- the last block has closed the run
  have hmax : (h.infoLoop L.blocks).info.maxFree =
      max (h.infoLoop L.blocks).info.maxFree (h.infoLoop L.blocks).lenFree := by
    rw [hruns.last rfl, Nat.max_zero]
  have htotal : (h.infoLoop L.blocks).info.total = L.blocks * L.bytesPerBlock := by
    rw [hcounts.total, L.poolEnd_eq, Nat.add_sub_cancel_left]
  constructor
  · exact htotal
  · exact congrArg (· * L.bytesPerBlock) hcounts.used
  · exact congrArg (· * L.bytesPerBlock) hcounts.free
  · change (h.infoLoop L.blocks).info.used * L.bytesPerBlock +
      (h.infoLoop L.blocks).info.free * L.bytesPerBlock = (h.infoLoop L.blocks).info.total
    rw [htotal, hcounts.used, hcounts.free, ← Nat.add_mul, usedBlocks_add_freeBlocks]
  · exact hchains.one.trans (ended_blocks h 1)
  · exact hchains.two.trans (ended_blocks h 2)
  · intro n hn
    change n ≤ (h.infoLoop L.blocks).info.maxBlock ↔ _
    constructor
    · intro hle
      rcases hchains.attained with hzero | ⟨b, ho⟩
      · omega
      · exact ⟨b, _, hle, ho⟩
    · rintro ⟨b, m, hnm, ho⟩
      exact hnm.trans (hchains.le b m ho ho.le)
  · intro n hn
    change n ≤ (h.infoLoop L.blocks).info.maxFree ↔ _
    rw [hmax]
    constructor
    · intro hle hfull
      -- the longest run ends at `j`, and is as long as is asked for
      obtain ⟨j, hj, heq⟩ := hruns.attained
      have hjle := streak_zero_le (isFree h.tables 0) j
      refine hfull (j - n) ⟨hn, by omega, ?_⟩
      intro c hc hcn
      have htest := holds_of_streak (p := isFree h.tables 0) (c := 0) (i := c) (j := j)
        (by omega) (by omega)
      rwa [isFree_zero, decide_eq_true_eq] at htest
    · intro hroom
      rw [Full, not_forall] at hroom
      obtain ⟨b, hb⟩ := hroom
      have hrun := Classical.not_not.mp hb
      have hle := hrun.le
      -- the loop has counted the run that there is
      refine le_trans ?_ (hruns.le (b + n) hle)
      refine le_streak (by omega) ?_
      intro i hi hin
      rw [isFree_zero, decide_eq_true_eq]
      exact hrun.free i (by omega) (by omega)

theorem gcInfo_correct_oneObject :
    ∃ info, oneObject.gcInfo = some info ∧ oneObject.Described info :=
  gcInfo_correct oneObject_wf (by decide)

example : oneObject.gcInfo = some ⟨128, 32, 96, 3, 1, 0, 1⟩ := by decide

end Heap

end EfiLvgl.Gc
