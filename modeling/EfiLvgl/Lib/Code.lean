import Mathlib.Data.List.Basic
import Mathlib.Data.List.Infix
import Mathlib.Data.Nat.Digits.Lemmas

/-!
# EfiLvgl.Lib.Code — texts that can be read back

Three ways in which a concatenation of texts determines its parts:

* a word over one alphabet ends where a letter outside it stands
  (`append_inj_of_alphabet`);
* blocks over two disjoint alphabets in turn, none of them empty, are separated by
  the change of alphabet (`Alternating.flatten_inj`);
* a prefix code can be read letter by letter (`PrefixFree.flatMap_injective`).

`numeral` is the usual positional numeral, most significant digit first.
-/

namespace EfiLvgl.Code

variable {α β : Type}

/-! ## Alphabets -/

/-- The text does not go on with a letter of the alphabet. -/
def Leaves (p : β → Prop) (text : List β) : Prop := ∀ x, text.head? = some x → ¬ p x

theorem append_inj_of_alphabet {p : β → Prop} :
    ∀ {u u' v v' : List β}, (∀ x ∈ u, p x) → (∀ x ∈ u', p x) → Leaves p v → Leaves p v' →
      u ++ v = u' ++ v' → u = u' ∧ v = v'
  | [], [], v, v', _, _, _, _, h => ⟨rfl, h⟩
  | [], y :: u', v, v', _, hu', hv, _, h => by
      rw [List.nil_append, List.cons_append] at h
      exact absurd (hu' y (by simp)) (hv y (by simp [h]))
  | x :: u, [], v, v', hu, _, _, hv', h => by
      rw [List.nil_append, List.cons_append] at h
      exact absurd (hu x (by simp)) (hv' x (by simp [← h]))
  | x :: u, y :: u', v, v', hu, hu', hv, hv', h => by
      rw [List.cons_append, List.cons_append, List.cons.injEq] at h
      obtain ⟨hxy, htail⟩ := h
      obtain ⟨hu₁, hv₁⟩ := append_inj_of_alphabet (fun z hz => hu z (by simp [hz]))
        (fun z hz => hu' z (by simp [hz])) hv hv' htail
      exact ⟨by rw [hxy, hu₁], hv₁⟩

/-- Non-empty blocks over two alphabets in turn, beginning with the one given. -/
def Alternating (p : Bool → β → Prop) : Bool → List (List β) → Prop
  | _, [] => True
  | side, block :: blocks =>
      block ≠ [] ∧ (∀ x ∈ block, p side x) ∧ Alternating p (!side) blocks

theorem Alternating.leaves {p : Bool → β → Prop} (hdisj : ∀ side x, p side x → ¬ p (!side) x)
    {side : Bool} {blocks : List (List β)} (h : Alternating p side blocks) :
    Leaves (p (!side)) blocks.flatten := by
  intro x hx
  cases blocks with
  | nil => simp at hx
  | cons block blocks =>
      obtain ⟨hne, hin, -⟩ := h
      cases block with
      | nil => exact absurd rfl hne
      | cons y block =>
          simp only [List.flatten_cons, List.cons_append, List.head?_cons, Option.some.injEq] at hx
          subst hx
          exact hdisj side _ (hin _ (by simp))

/-- The blocks can be read off their concatenation. -/
theorem Alternating.flatten_inj {p : Bool → β → Prop}
    (hdisj : ∀ side x, p side x → ¬ p (!side) x) {side : Bool} {blocks blocks' : List (List β)}
    (h : Alternating p side blocks) (h' : Alternating p side blocks')
    (heq : blocks.flatten = blocks'.flatten) : blocks = blocks' := by
  induction blocks generalizing side blocks' with
  | nil =>
      cases blocks' with
      | nil => rfl
      | cons block' blocks' =>
          obtain ⟨hne, -, -⟩ := h'
          simp only [List.flatten_nil, List.flatten_cons] at heq
          exact absurd (List.append_eq_nil_iff.mp heq.symm).1 hne
  | cons block blocks ih =>
      obtain ⟨hne, hin, hrest⟩ := h
      cases blocks' with
      | nil =>
          simp only [List.flatten_nil, List.flatten_cons] at heq
          exact absurd (List.append_eq_nil_iff.mp heq).1 hne
      | cons block' blocks' =>
          obtain ⟨hne', hin', hrest'⟩ := h'
          simp only [List.flatten_cons] at heq
          have hl := hrest.leaves hdisj
          have hl' := hrest'.leaves hdisj
          -- what comes behind the first block begins outside its alphabet
          rw [Bool.not_not] at hl hl'
          obtain ⟨hb, hbs⟩ := append_inj_of_alphabet hin hin' hl hl' heq
          rw [hb, ih hrest hrest' hbs]

/-! ## Prefix codes -/

/-- No code word begins another one. -/
def PrefixFree (code : α → List β) : Prop :=
  ∀ a b, code a <+: code b → a = b

/-- The code words can be read off their concatenation. -/
theorem PrefixFree.flatMap_injective {code : α → List β} (hcode : PrefixFree code)
    (hne : ∀ a, code a ≠ []) : Function.Injective fun word => List.flatMap code word := by
  intro word word' h
  simp only at h
  induction word generalizing word' with
  | nil =>
      cases word' with
      | nil => rfl
      | cons b word' =>
          simp only [List.flatMap_nil, List.flatMap_cons] at h
          exact absurd (List.append_eq_nil_iff.mp h.symm).1 (hne b)
  | cons a word ih =>
      cases word' with
      | nil =>
          simp only [List.flatMap_nil, List.flatMap_cons] at h
          exact absurd (List.append_eq_nil_iff.mp h).1 (hne a)
      | cons b word' =>
          simp only [List.flatMap_cons] at h
          -- of two words that begin one text, one begins the other
          have hab : a = b := by
            rcases List.prefix_or_prefix_of_prefix (List.prefix_append (code a) (word.flatMap code))
              (h ▸ List.prefix_append (code b) (word'.flatMap code)) with hp | hp
            · exact hcode a b hp
            · exact (hcode b a hp).symm
          subst hab
          rw [List.append_cancel_left_eq] at h
          rw [ih h]

/-! ## Numerals -/

/-- The digits of `n` in base `b`, most significant first; `0` has one digit. -/
def numeral (b n : Nat) : List Nat := if n = 0 then [0] else (Nat.digits b n).reverse

theorem numeral_ne_nil (b n : Nat) : numeral b n ≠ [] := by
  by_cases hn : n = 0
  · simp [numeral, hn]
  · simp [numeral, hn, Nat.digits_eq_nil_iff_eq_zero]

theorem lt_of_mem_numeral {b n d : Nat} (hb : 1 < b) (hd : d ∈ numeral b n) : d < b := by
  by_cases hn : n = 0
  · simp only [numeral, hn, if_true, List.mem_singleton] at hd
    omega
  · simp only [numeral, hn, if_false, List.mem_reverse] at hd
    exact Nat.digits_lt_base hb hd

/-- Division by the base takes off the last digit. -/
theorem numeral_div {b n : Nat} (hb : 1 < b) :
    numeral b n = if n / b = 0 then [n % b] else numeral b (n / b) ++ [n % b] := by
  by_cases hn : n = 0
  · subst hn
    simp [numeral]
  · have hdigits := Nat.digits_def' hb (Nat.pos_of_ne_zero hn)
    by_cases hq : n / b = 0
    · rw [if_pos hq, numeral, if_neg hn, hdigits, hq]
      simp
    · rw [if_neg hq, numeral, if_neg hn, hdigits, numeral, if_neg hq]
      simp

theorem numeral_injective (b : Nat) : Function.Injective (numeral b) := by
  -- only zero begins with the digit 0
  have hzero : ∀ {n}, n ≠ 0 → numeral b n ≠ [0] := by
    intro n hn h
    rw [numeral, if_neg hn, ← List.reverse_inj, List.reverse_reverse] at h
    have hlast := Nat.getLast_digit_ne_zero b hn
    simp [h] at hlast
  intro n m h
  by_cases hn : n = 0
  · by_cases hm : m = 0
    · rw [hn, hm]
    · exact absurd (by rw [← h, hn]; rfl) (hzero hm)
  · by_cases hm : m = 0
    · exact absurd (by rw [h, hm]; rfl) (hzero hn)
    · rw [numeral, if_neg hn, numeral, if_neg hm, List.reverse_inj] at h
      exact Nat.digits_inj_iff.mp h

end EfiLvgl.Code
