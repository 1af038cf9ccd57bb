import EfiLvgl.Lib.Ram

/-!
# EfiLvgl.Lib.Pool — blocks of memory in use

Memory together with the blocks that are in use. Blocks never meet, and an allocator hands out
memory that meets none of them (`Allocator.fresh`), so that what a block holds is changed only
by writes into it: `Takes` is what an allocation does and `Fills` what a write does, and all
other blocks hold what they held. `Owns` is that for several blocks at once. Nothing here names
a particular program.
-/

namespace EfiLvgl

/-- A range of memory. -/
structure Block where
  addr : Nat
  len : Nat
deriving DecidableEq, Repr

namespace Block

/-- Two blocks without a common address. -/
def Apart (n : Nat) (b c : Block) : Prop :=
  ∀ q, Ram.Covers n b.addr b.len q → ¬ Ram.Covers n c.addr c.len q

/-- A block that is not empty, is not at zero and does not wrap around. -/
structure Proper (n : Nat) (b : Block) : Prop where
  addr_pos : 0 < b.addr
  len_pos : 0 < b.len
  le : b.addr + b.len ≤ n

theorem Apart.symm {n : Nat} {b c : Block} (h : b.Apart n c) : c.Apart n b :=
  fun q hc hb => h q hb hc

instance (n : Nat) : Std.Symm (Block.Apart n) := ⟨fun _ _ h => h.symm⟩

theorem Apart.addr_ne {n : Nat} {b c : Block} (h : b.Apart n c) (hb : b.Proper n)
    (hc : c.Proper n) : b.addr ≠ c.addr := by
  intro heq
  refine h b.addr ⟨0, hb.len_pos, rfl⟩ ⟨0, hc.len_pos, ?_⟩
  rw [Nat.add_zero, heq]

end Block

/-- Memory, and the blocks in use. -/
structure Heap (n : Nat) where
  ram : Ram n
  live : List Block
  apart : live.Pairwise (Block.Apart n)
  proper : ∀ b ∈ live, b.Proper n

/-- What chooses the place of a new block, from the blocks in use. -/
structure Allocator (n : Nat) where
  take : List Block → Nat → Option Nat
  fresh : ∀ live len p, take live len = some p →
    Block.Proper n ⟨p, len⟩ ∧ ∀ b ∈ live, Block.Apart n ⟨p, len⟩ b

namespace Allocator

/-- The first address behind all blocks. -/
def top : List Block → Nat
  | [] => 1
  | b :: live => max (b.addr + b.len) (top live)

theorem top_pos (live : List Block) : 0 < top live := by
  induction live with
  | nil => exact Nat.one_pos
  | cons b live ih => exact lt_max_of_lt_right ih

theorem le_top {live : List Block} {b : Block} (hb : b ∈ live) : b.addr + b.len ≤ top live := by
  induction live with
  | nil => cases hb
  | cons c live ih =>
      rcases List.mem_cons.mp hb with rfl | hb
      · exact le_max_left _ _
      · exact le_max_of_le_right (ih hb)

/-- The allocator that puts each block behind all others. -/
def above (n : Nat) : Allocator n where
  take live len := if 0 < len ∧ top live + len ≤ n then some (top live) else none
  fresh live len p h := by
    split at h
    · next hfit =>
        cases h
        refine ⟨⟨top_pos live, hfit.1, hfit.2⟩, ?_⟩
        rintro b hb q ⟨t, ht, htq⟩ ⟨s, hs, hsq⟩
        have hle := le_top hb
        have hlen := hfit.2
        -- the new block begins behind all others, and nothing wraps around
        dsimp only at ht htq
        rw [Nat.mod_eq_of_lt (by omega)] at htq hsq
        omega
    · cases h

end Allocator

namespace Heap

variable {n : Nat}

/-- A block in use, and what it holds. -/
def Holds (h : Heap n) (b : Block) (bytes : List UInt8) : Prop :=
  b ∈ h.live ∧ h.ram.read b.addr b.len = bytes

theorem Holds.length {h : Heap n} {b : Block} {bytes : List UInt8} (hb : h.Holds b bytes) :
    bytes.length = b.len := by
  rw [← hb.2, Ram.length_read]

theorem apart_of_ne (h : Heap n) {b c : Block} (hb : b ∈ h.live) (hc : c ∈ h.live) (hne : b ≠ c) :
    b.Apart n c :=
  h.apart.forall hb hc hne

theorem addr_ne (h : Heap n) {b c : Block} (hb : b ∈ h.live) (hc : c ∈ h.live) (hne : b ≠ c) :
    b.addr ≠ c.addr :=
  (h.apart_of_ne hb hc hne).addr_ne (h.proper b hb) (h.proper c hc)

/-- A part of what a block holds. -/
theorem Holds.read_part {h : Heap n} {b : Block} {bytes : List UInt8} (hb : h.Holds b bytes)
    {off len : Nat} (hle : off + len ≤ b.len) :
    h.ram.read (b.addr + off) len = (bytes.drop off).take len := by
  rw [← hb.2]
  refine List.ext_getElem ?_ ?_
  · simp only [Ram.length_read, List.length_take, List.length_drop]
    omega
  · intro t _ _
    simp only [Ram.read, List.getElem_map, List.getElem_range, List.getElem_take,
      List.getElem_drop]
    rw [Nat.add_assoc]

/-! ## Changes -/

/-- A block is taken: what all others hold is kept. -/
structure Takes (h h' : Heap n) (b : Block) (bytes : List UInt8) : Prop where
  live : h'.live = b :: h.live
  new : b ∉ h.live
  self : h'.Holds b bytes
  other : ∀ c bs, h.Holds c bs → h'.Holds c bs

/-- A block is written to: what all others hold is kept. -/
structure Fills (h h' : Heap n) (b : Block) (bytes : List UInt8) : Prop where
  live : h'.live = h.live
  self : h'.Holds b bytes
  other : ∀ c bs, c ≠ b → h.Holds c bs → h'.Holds c bs

/-- What is taken is none of the blocks in use. -/
theorem Takes.ne {h h' : Heap n} {b c : Block} {bytes bs : List UInt8}
    (ht : h.Takes h' b bytes) (hc : h.Holds c bs) : c ≠ b := by
  rintro rfl
  exact ht.new hc.1

theorem Fills.refl {h : Heap n} {b : Block} {bytes : List UInt8} (hb : h.Holds b bytes) :
    h.Fills h b bytes :=
  ⟨rfl, hb, fun _ _ _ hc => hc⟩

theorem Fills.trans {h₁ h₂ h₃ : Heap n} {b : Block} {bytes bytes' : List UInt8}
    (h₁₂ : h₁.Fills h₂ b bytes) (h₂₃ : h₂.Fills h₃ b bytes') : h₁.Fills h₃ b bytes' :=
  ⟨h₂₃.live.trans h₁₂.live, h₂₃.self, fun c bs hne hc =>
    h₂₃.other c bs hne (h₁₂.other c bs hne hc)⟩

/-- A block is taken and written to. -/
theorem Takes.fill {h₁ h₂ h₃ : Heap n} {b : Block} {bytes bytes' : List UInt8}
    (h₁₂ : h₁.Takes h₂ b bytes) (h₂₃ : h₂.Fills h₃ b bytes') : h₁.Takes h₃ b bytes' :=
  ⟨h₂₃.live.trans h₁₂.live, h₁₂.new, h₂₃.self, fun c bs hc =>
    h₂₃.other c bs (h₁₂.ne hc) (h₁₂.other c bs hc)⟩

/-- Bytes written over a part of others. -/
def splice (off : Nat) (bs bytes : List UInt8) : List UInt8 :=
  bytes.take off ++ bs ++ bytes.drop (off + bs.length)

theorem splice_nil (off : Nat) (bytes : List UInt8) : splice off [] bytes = bytes := by
  simp [splice]

/-- A write that is continued. -/
theorem splice_cons {off : Nat} {b : UInt8} {bs bytes : List UInt8} (h : off < bytes.length) :
    splice (off + 1) bs (splice off [b] bytes) = splice off (b :: bs) bytes := by
  have hlen : (bytes.take off ++ [b]).length = off + 1 := by
    rw [List.length_append, List.length_take, Nat.min_eq_left (Nat.le_of_lt h)]
    rfl
  have hdrop : off + 1 + bs.length = (bytes.take off ++ [b]).length + bs.length := by rw [hlen]
  unfold splice
  rw [List.take_left' hlen, hdrop, List.drop_length_add_append, List.drop_drop,
    List.append_assoc (bytes.take off), List.singleton_append, List.length_singleton,
    List.length_cons, Nat.add_assoc, Nat.add_comm 1]

/-- A block is written over as a whole. -/
theorem splice_zero {bs bytes : List UInt8} (h : bytes.length ≤ bs.length) :
    splice 0 bs bytes = bs := by
  unfold splice
  rw [List.take_zero, Nat.zero_add, List.drop_eq_nil_of_le h, List.append_nil, List.nil_append]

/-- Bytes are written to an address. -/
def write (h : Heap n) (p : Nat) (bs : List UInt8) : Heap n := { h with ram := h.ram.write p bs }

/-- A write into a block. -/
theorem fills_write {h : Heap n} {b : Block} {bytes : List UInt8} (hn : 0 < n)
    (hb : h.Holds b bytes) {off : Nat} {bs : List UInt8} (hle : off + bs.length ≤ b.len) :
    h.Fills (h.write (b.addr + off) bs) b (splice off bs bytes) := by
  have hproper := h.proper b hb.1
  have hfit := hproper.le
  refine ⟨rfl, ?_, ?_⟩
  · refine ⟨hb.1, ?_⟩
    show (h.ram.write (b.addr + off) bs).read b.addr b.len = _
    have hlen := hb.length
    refine List.ext_getElem ?_ ?_
    · simp only [splice, Ram.length_read, List.length_append, List.length_take, List.length_drop]
      omega
    · intro t ht _
      rw [Ram.length_read] at ht
      have hin : t < bytes.length := by omega
      have hold : h.ram.byte (b.addr + t) = bytes[t] := by
        simp only [← hb.2, Ram.read, List.getElem_map, List.getElem_range]
      simp only [Ram.read, List.getElem_map, List.getElem_range, splice]
      by_cases hin : off ≤ t ∧ t < off + bs.length
      · -- what is written
        have hplace : b.addr + t = b.addr + off + (t - off) := by omega
        rw [List.getElem_append_left
            (by simp only [List.length_append, List.length_take]; omega),
          List.getElem_append_right (by simp only [List.length_take]; omega), hplace,
          Ram.byte_write hn _ _ (by omega) (by omega)]
        simp only [List.length_take, Nat.min_eq_left (show off ≤ bytes.length by omega)]
      · -- what stays
        rw [Ram.byte_write_of_not_covers hn, hold]
        · by_cases hlt : t < off
          · rw [List.getElem_append_left
                (by simp only [List.length_append, List.length_take]; omega),
              List.getElem_append_left (by simp only [List.length_take]; omega),
              List.getElem_take]
          · rw [List.getElem_append_right
                (by simp only [List.length_append, List.length_take]; omega), List.getElem_drop]
            congr 1
            simp only [List.length_append, List.length_take]
            omega
        · rintro ⟨k, hk, hkq⟩
          rw [Nat.mod_eq_of_lt (by omega), Nat.mod_eq_of_lt (by omega)] at hkq
          omega
  · -- the other blocks meet this one nowhere
    intro c cs hne hc
    refine ⟨hc.1, ?_⟩
    show (h.ram.write (b.addr + off) bs).read c.addr c.len = cs
    rw [Ram.read_write_of_not_covers hn, hc.2]
    intro x hx hw
    exact h.apart_of_ne hb.1 hc.1 (Ne.symm hne) x (hw.widen hle) hx

/-- A write from the start of a block on. -/
theorem fills_write_start {h : Heap n} {b : Block} {bytes : List UInt8} (hn : 0 < n)
    (hb : h.Holds b bytes) {bs : List UInt8} (hle : bs.length ≤ b.len) :
    h.Fills (h.write b.addr bs) b (bs ++ bytes.drop bs.length) := by
  have hfills := fills_write hn hb (show 0 + bs.length ≤ b.len by omega)
  rw [splice, List.take_zero, List.nil_append, Nat.zero_add] at hfills
  exact hfills

/-- A write of a whole block. -/
theorem fills_write_all {h : Heap n} {b : Block} {bytes : List UInt8} (hn : 0 < n)
    (hb : h.Holds b bytes) {bs : List UInt8} (hlen : bs.length = b.len) :
    h.Fills (h.write b.addr bs) b bs := by
  have hfills := fills_write_start hn hb hlen.le
  rw [List.drop_eq_nil_of_le (by rw [hb.length, hlen]), List.append_nil] at hfills
  exact hfills

/-! ## Taking and giving back -/

/-- A new block of zeros. -/
def alloc (h : Heap n) (take : Allocator n) (len : Nat) : Option (Nat × Heap n) :=
  match hp : take.take h.live len with
  | none => none
  | some p => some (p,
      { ram := h.ram.write p (List.replicate len 0)
        live := ⟨p, len⟩ :: h.live
        apart := List.pairwise_cons.mpr ⟨(take.fresh _ _ _ hp).2, h.apart⟩
        proper := List.forall_mem_cons.mpr ⟨(take.fresh _ _ _ hp).1, h.proper⟩ })

theorem alloc_eq_none {h : Heap n} {take : Allocator n} {len : Nat}
    (ha : h.alloc take len = none) : take.take h.live len = none := by
  unfold alloc at ha
  split at ha
  · assumption
  · cases ha

theorem takes_alloc {h h' : Heap n} {take : Allocator n} {len p : Nat} (hn : 0 < n)
    (ha : h.alloc take len = some (p, h')) : h.Takes h' ⟨p, len⟩ (List.replicate len 0) := by
  unfold alloc at ha
  split at ha
  · cases ha
  · next hp =>
      cases ha
      rcases take.fresh _ _ _ hp with ⟨hproper, hapart⟩
      have hfit := hproper.le
      dsimp only at hfit
      refine ⟨rfl, ?_, ⟨List.mem_cons_self, ?_⟩, ?_⟩
      · -- a block in use would share its first address with the new one
        intro hmem
        refine hapart _ hmem p ?_ ?_
        all_goals exact ⟨0, hproper.len_pos, rfl⟩
      · have hlen : (List.replicate len (0 : UInt8)).length ≤ n := by
          rw [List.length_replicate]
          omega
        have hread := Ram.read_write hn h.ram p hlen
        rw [List.length_replicate] at hread
        exact hread
      · intro c cs hc
        refine ⟨List.mem_cons_of_mem _ hc.1, ?_⟩
        show (h.ram.write p (List.replicate len 0)).read c.addr c.len = cs
        rw [Ram.read_write_of_not_covers hn, hc.2]
        intro x hx hw
        rw [List.length_replicate] at hw
        exact hapart c hc.1 x hw hx

/-- A block is given back. -/
def free (h : Heap n) (addr : Nat) : Heap n where
  ram := h.ram
  live := h.live.filter fun b => b.addr ≠ addr
  apart := h.apart.filter _
  proper b hb := h.proper b (List.mem_of_mem_filter hb)

theorem Holds.free {h : Heap n} {b : Block} {bytes : List UInt8} (hb : h.Holds b bytes)
    {addr : Nat} (hne : b.addr ≠ addr) : (h.free addr).Holds b bytes :=
  ⟨List.mem_filter.mpr ⟨hb.1, decide_eq_true hne⟩, hb.2⟩

/-! ## Owning several blocks -/

/-- Different blocks, and what each of them holds. -/
structure Owns (h : Heap n) (l : List (Block × List UInt8)) : Prop where
  holds : ∀ p ∈ l, h.Holds p.1 p.2
  nodup : (l.map Prod.fst).Nodup

theorem Owns.take {h h' : Heap n} {l : List (Block × List UInt8)} {b : Block} {bytes : List UInt8}
    (hl : h.Owns l) (ht : h.Takes h' b bytes) : h'.Owns ((b, bytes) :: l) := by
  refine ⟨List.forall_mem_cons.mpr ⟨ht.self, fun p hp => ht.other _ _ (hl.holds p hp)⟩, ?_⟩
  rw [List.map_cons, List.nodup_cons]
  refine ⟨?_, hl.nodup⟩
  rintro hmem
  rcases List.mem_map.mp hmem with ⟨p, hp, heq⟩
  have hlive : p.1 ∈ h.live := (hl.holds p hp).1
  -- a new block cannot be one that is owned already
  rw [show p.1 = b from heq] at hlive
  exact ht.new hlive

theorem Owns.tail {h : Heap n} {p : Block × List UInt8} {l : List (Block × List UInt8)}
    (hl : h.Owns (p :: l)) : h.Owns l := by
  have hnodup := hl.nodup
  rw [List.map_cons, List.nodup_cons] at hnodup
  exact ⟨fun q hq => hl.holds q (List.mem_cons_of_mem _ hq), hnodup.2⟩

theorem Owns.perm {h : Heap n} {l l' : List (Block × List UInt8)} (hl : h.Owns l)
    (hp : l.Perm l') : h.Owns l' :=
  ⟨fun q hq => hl.holds q (hp.mem_iff.mpr hq), (hp.map Prod.fst).nodup_iff.mp hl.nodup⟩

/-- Different blocks are at different addresses. -/
theorem Owns.addr_ne {h : Heap n} {l : List (Block × List UInt8)} {p q : Block × List UInt8}
    (hl : h.Owns (l ++ [q])) (hp : p ∈ l) : p.1.addr ≠ q.1.addr := by
  have hnodup := hl.nodup
  rw [List.map_append, List.map_singleton, List.nodup_append] at hnodup
  have hne : p.1 ≠ q.1 :=
    hnodup.2.2 _ (List.mem_map_of_mem hp) _ (List.mem_singleton_self _)
  exact h.addr_ne (hl.holds p (List.mem_append_left _ hp)).1
    (hl.holds q (List.mem_append_right _ (List.mem_singleton_self _))).1 hne

/-- The blocks around one are others. -/
theorem Owns.ne {h : Heap n} {l₁ l₂ : List (Block × List UInt8)} {b : Block} {bytes : List UInt8}
    (hl : h.Owns (l₁ ++ (b, bytes) :: l₂)) : ∀ p ∈ l₁ ++ l₂, p.1 ≠ b := by
  intro p hp heq
  have hnodup := hl.nodup
  rw [List.map_append, List.map_cons, List.nodup_middle, List.nodup_cons] at hnodup
  refine hnodup.1 ?_
  rw [← List.map_append]
  exact List.mem_map.mpr ⟨p, hp, heq⟩

theorem Owns.fill {h h' : Heap n} {l₁ l₂ : List (Block × List UInt8)} {b : Block}
    {old bytes : List UInt8} (hl : h.Owns (l₁ ++ (b, old) :: l₂)) (hf : h.Fills h' b bytes) :
    h'.Owns (l₁ ++ (b, bytes) :: l₂) := by
  constructor
  · intro p hp
    rcases List.mem_append.mp hp with hp | hp
    · exact hf.other _ _ (hl.ne p (List.mem_append_left _ hp))
        (hl.holds p (List.mem_append_left _ hp))
    · rcases List.mem_cons.mp hp with rfl | hp
      · -- only the block in the middle has new contents
        exact hf.self
      · exact hf.other _ _ (hl.ne p (List.mem_append_right _ hp))
          (hl.holds p (List.mem_append_right _ (List.mem_cons_of_mem _ hp)))
  · have hnodup := hl.nodup
    rw [List.map_append, List.map_cons] at hnodup ⊢
    exact hnodup

theorem Owns.fill_head {h h' : Heap n} {l : List (Block × List UInt8)} {b : Block}
    {old bytes : List UInt8} (hl : h.Owns ((b, old) :: l)) (hf : h.Fills h' b bytes) :
    h'.Owns ((b, bytes) :: l) := by
  have hl' : h.Owns ([] ++ (b, old) :: l) := hl
  exact hl'.fill hf

theorem Owns.fill_second {h h' : Heap n} {p : Block × List UInt8}
    {l : List (Block × List UInt8)} {b : Block} {old bytes : List UInt8}
    (hl : h.Owns (p :: (b, old) :: l)) (hf : h.Fills h' b bytes) :
    h'.Owns (p :: (b, bytes) :: l) := by
  have hl' : h.Owns ([p] ++ (b, old) :: l) := hl
  exact hl'.fill hf

theorem Owns.fill_third {h h' : Heap n} {p q : Block × List UInt8}
    {l : List (Block × List UInt8)} {b : Block} {old bytes : List UInt8}
    (hl : h.Owns (p :: q :: (b, old) :: l)) (hf : h.Fills h' b bytes) :
    h'.Owns (p :: q :: (b, bytes) :: l) := by
  have hl' : h.Owns ([p, q] ++ (b, old) :: l) := hl
  exact hl'.fill hf

theorem Owns.free {h : Heap n} {l₁ l₂ : List (Block × List UInt8)} {b : Block} {bytes : List UInt8}
    (hl : h.Owns (l₁ ++ (b, bytes) :: l₂)) : (h.free b.addr).Owns (l₁ ++ l₂) := by
  have hb : b ∈ h.live := (hl.holds (b, bytes) (List.mem_append_right _ List.mem_cons_self)).1
  have hsub : ∀ p ∈ l₁ ++ l₂, p ∈ l₁ ++ (b, bytes) :: l₂ := by
    intro p hp
    rcases List.mem_append.mp hp with hp | hp
    · exact List.mem_append_left _ hp
    · exact List.mem_append_right _ (List.mem_cons_of_mem _ hp)
  constructor
  · intro p hp
    have hp' := hl.holds p (hsub p hp)
    exact hp'.free (h.addr_ne hp'.1 hb (hl.ne p hp))
  · have hnodup := hl.nodup
    rw [List.map_append, List.map_cons, List.nodup_middle, List.nodup_cons] at hnodup
    rw [List.map_append]
    exact hnodup.2

theorem Owns.free_head {h : Heap n} {l : List (Block × List UInt8)} {b : Block}
    {bytes : List UInt8} (hl : h.Owns ((b, bytes) :: l)) : (h.free b.addr).Owns l := by
  have hl' : h.Owns ([] ++ (b, bytes) :: l) := hl
  exact hl'.free

end Heap

end EfiLvgl
