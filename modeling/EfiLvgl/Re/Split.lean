import EfiLvgl.Lib.Cut
import EfiLvgl.Lib.Wp
import EfiLvgl.Uefi.Access

/-!
# EfiLvgl.Re.Split — splitting by a regular expression

`split` cuts its subject at the matches that the scanner reports, one after the other.
`stringScanCallback` cuts off what is before a match, and the callers add what is left behind the
last one. A pattern with groups cuts at its groups instead.

Positions are relative to the subject, and a piece is where it starts and how long it is
(`newStrOfType`). `split_loses_nothing_iff`: without groups, the pieces and the matches between
them are the subject, and there are as many as `max_split` says, unless the conversion to `int`
changes it.
-/

namespace EfiLvgl.Re

open EfiLvgl.Cut EfiLvgl.Uefi

/-! ## Strings -/

/-- `mp_type_str` or `mp_type_bytes`. -/
inductive StrType where
  | str
  | bytes
deriving DecidableEq, Repr

/-- The string that is split. -/
structure Subject where
  strType : StrType
  data : List UInt8
deriving DecidableEq, Repr

/-- A string copied from the subject. -/
structure Piece where
  strType : StrType
  start : Int
  len : Int
deriving DecidableEq, Repr

/-- Its text, when it is inside the subject. -/
def Piece.text (s : Subject) (p : Piece) : List UInt8 :=
  slice s.data p.start.toNat (p.start + p.len).toNat

/-- How a call is cut short: it raises, or it copies to `NULL` without an end. -/
inductive Fault where
  | raise (s : Stop)
  | memoryError
  | overrun
deriving DecidableEq, Repr

/-- `mp_obj_new_str_of_type`. A negative length is more than the heap has; only −1 becomes zero
once there is room for a NUL, and then `m_new` gives `NULL` and does not raise. -/
def newStrOfType (strType : StrType) (start len : Int) : Except Fault Piece :=
  if 0 ≤ len then .ok ⟨strType, start, len⟩
  else if len = -1 then .error .overrun
  else .error .memoryError

/-! ## The scanner -/

/-- `beg` and `end` of a group. -/
structure Group where
  beg : Int
  stop : Int
deriving DecidableEq, Repr

/-- A group that takes no part in the match. -/
def Group.absent : Group := ⟨-1, -1⟩

/-- A group of a match in so many characters. -/
def Group.WellFormed (n : Nat) (g : Group) : Prop :=
  g = absent ∨ (0 ≤ g.beg ∧ g.beg ≤ g.stop ∧ g.stop ≤ n)

/-- `OnigRegion`: the match, and the groups of the pattern. -/
abbrev OnigRegion := List Group

/-- `regex_t`: what the scanner reports about a subject, a region for each match. -/
structure Regex where
  reports : List UInt8 → List OnigRegion
  wellFormed : ∀ data, ∀ region ∈ reports data, ∀ g ∈ region, g.WellFormed data.length

/-- `split_data_t`; `stop` is its `end`, relative to `start`. -/
structure SplitData where
  strType : StrType
  stop : Int
  maxSplit : Int
  result : List Piece
deriving DecidableEq, Repr

/-- A program that adds to the result. What it has added before it is cut short stays there. -/
abbrev Splitting := EStateM Fault SplitData

/-- `mp_obj_list_append` of the characters from `end` up to a position. -/
def appendPiece (upTo : Int) : Splitting Unit := do
  let d ← get
  match newStrOfType d.strType d.stop (upTo - d.stop) with
  | .ok piece => set { d with result := d.result ++ [piece] }
  | .error fault => throw fault

/-- The body of the loop of `string_scan_callback`. -/
def cutAt (g : Group) : Splitting Unit := do
  appendPiece g.beg
  let d ← get
  set { d with stop := g.stop }

/-- The loop of `string_scan_callback`. -/
def cutAll : List Group → Splitting Unit
  | [] => pure ()
  | g :: gs => do
      cutAt g
      cutAll gs

/-- What the loop goes over: the groups, or the match when there are none. -/
def cutsOf (region : OnigRegion) : List Group := region.drop (if 1 < region.length then 1 else 0)

/-- `string_scan_callback`. -/
def stringScanCallback (num : Nat) (region : OnigRegion) : Splitting Int := do
  let d ← get
  if 0 < d.maxSplit ∧ d.maxSplit ≤ num then pure 1
  else do
    cutAll (cutsOf region)
    pure 0

/-- `onig_scan`: it calls back for each match with its number, until it is told to stop. -/
def onigScan (callback : Nat → OnigRegion → Splitting Int) : Nat → List OnigRegion → Splitting Unit
  | _, [] => pure ()
  | num, region :: rest => do
      let rs ← callback num region
      if rs ≠ 0 then pure () else onigScan callback (num + 1) rest

/-! ## The callers -/

/-- What a call comes to: it returns the result, or is cut short when it has got so far. -/
inductive Outcome where
  | returns (result : List Piece)
  | stops (fault : Fault) (result : List Piece)
deriving DecidableEq, Repr

/-- What comes of a program. -/
def outcome (x : Splitting Unit) (d : SplitData) : Outcome :=
  match x d with
  | .ok _ d => .returns d.result
  | .error fault d => .stops fault d.result

/-- The value of an integer in an `int`. -/
def cInt (i : Int) : Int := Int.bmod i (2 ^ 32)

section Callers

variable (a : Arch)

/-- `re_split`; the limit is there when there is a third argument. -/
def reSplit (self : Regex) (string : Subject) (maxsplit : Option Int) : Outcome :=
  match getInt a (maxsplit.getD 0) with
  | .error e => .stops (.raise e) []
  | .ok maxsplit =>
      outcome
        (do
          onigScan stringScanCallback 0 (self.reports string.data)
          appendPiece string.data.length)
        { strType := string.strType, stop := 0, maxSplit := cInt maxsplit, result := [] }

/-- `uefi_mod_re_split`; `onigurumaCompile` gives nothing for a pattern with an error. -/
def uefiModReSplit (onigurumaCompile : List UInt8 → Option Regex) (pattern : List UInt8)
    (string : Subject) (maxsplit : Option Int) : Outcome :=
  match getInt a (maxsplit.getD 0) with
  | .error e => .stops (.raise e) []
  | .ok maxsplit =>
      match onigurumaCompile pattern with
      | none => .returns []
      | some regex =>
          outcome
            (do
              onigScan stringScanCallback 0 (regex.reports string.data)
              appendPiece string.data.length)
            { strType := string.strType, stop := 0, maxSplit := cInt maxsplit, result := [] }

end Callers

/-! ## What a cut does -/

/-- The piece up to a group is cut off. -/
def SplitData.cutOff (d : SplitData) (g : Group) : SplitData :=
  { d with stop := g.stop, result := d.result ++ [⟨d.strType, d.stop, g.beg - d.stop⟩] }

section Cuts

variable {d : SplitData} {g : Group}

theorem appendPiece_ok {upTo : Int} (h : d.stop ≤ upTo) :
    appendPiece upTo d =
      .ok () { d with result := d.result ++ [⟨d.strType, d.stop, upTo - d.stop⟩] } := by
  have hnew : newStrOfType d.strType d.stop (upTo - d.stop) =
      .ok ⟨d.strType, d.stop, upTo - d.stop⟩ := if_pos (by omega)
  unfold appendPiece
  rw [bind_apply_get, hnew]
  rfl

theorem appendPiece_error {upTo : Int} {fault : Fault}
    (h : newStrOfType d.strType d.stop (upTo - d.stop) = .error fault) :
    appendPiece upTo d = .error fault d := by
  unfold appendPiece
  rw [bind_apply_get, h]
  rfl

theorem cutAt_ok (h : d.stop ≤ g.beg) : cutAt g d = .ok () (d.cutOff g) := by
  unfold cutAt
  rw [bind_apply_ok (appendPiece_ok h)]
  rfl

/-- A cut that would have to begin before the last one ended. -/
theorem cutAt_back (h : g.beg < d.stop) :
    cutAt g d = .error (if g.beg = d.stop - 1 then .overrun else .memoryError) d := by
  have hnew : newStrOfType d.strType d.stop (g.beg - d.stop) =
      .error (if g.beg = d.stop - 1 then .overrun else .memoryError) := by
    unfold newStrOfType
    rw [if_neg (by omega)]
    by_cases hone : g.beg = d.stop - 1
    · rw [if_pos (by omega), if_pos hone]
    · rw [if_neg (by omega), if_neg hone]
  exact bind_apply_error (appendPiece_error hnew)

theorem cutAll_append (gs hs : List Group) :
    cutAll (gs ++ hs) = (do cutAll gs; cutAll hs) := by
  induction gs with
  | nil => rfl
  | cons g gs ih =>
      rw [List.cons_append, cutAll, ih, cutAll, bind_assoc]

theorem cutAll_maxSplit {gs : List Group} {d' : SplitData} (h : cutAll gs d = .ok () d') :
    d'.maxSplit = d.maxSplit := by
  induction gs generalizing d with
  | nil =>
      cases h
      rfl
  | cons g gs ih =>
      by_cases hback : g.beg < d.stop
      · rw [cutAll, bind_apply_error (cutAt_back hback)] at h
        cases h
      · rw [cutAll, bind_apply_ok (cutAt_ok (by omega))] at h
        have hrest := ih h
        exact hrest

end Cuts

/-! ## Which matches are cut at -/

/-- How many of so many matches there are cuts at. -/
def limitOf (maxSplit : Int) (n : Nat) : Nat := if 0 < maxSplit then min n maxSplit.toNat else n

theorem limitOf_eq_iff {i j : Int} {n : Nat} :
    limitOf i n = limitOf j n ↔ (0 < j ∧ j < n ∨ 0 < i ∧ i < n → i = j) := by
  unfold limitOf
  constructor
  · intro h hlimit
    split at h <;> split at h <;> omega
  · intro h
    split <;> split <;> omega

/-- The scanner goes on until the limit is reached. -/
theorem onigScan_eq (regions : List OnigRegion) (num : Nat) (d : SplitData) :
    onigScan stringScanCallback num regions d =
      cutAll ((if 0 < d.maxSplit then regions.take (d.maxSplit - num).toNat else regions).flatMap
        cutsOf) d := by
  induction regions generalizing num d with
  | nil => simp [onigScan, cutAll]
  | cons region rest ih =>
      have hcallback : ∀ x : Splitting Int,
          (if 0 < d.maxSplit ∧ d.maxSplit ≤ num then pure 1 else do
            cutAll (cutsOf region)
            pure 0) = x → stringScanCallback num region d = x d := by
        intro x hx
        unfold stringScanCallback
        rw [bind_apply_get, hx]
      unfold onigScan
      by_cases hstop : 0 < d.maxSplit ∧ d.maxSplit ≤ num
      · -- this match is one too many
        rw [bind_apply_ok (hcallback _ (if_pos hstop)), if_pos hstop.1,
          show (d.maxSplit - num).toNat = 0 by omega]
        rfl
      · have hrest : (if 0 < d.maxSplit then (region :: rest).take (d.maxSplit - num).toNat
            else region :: rest).flatMap cutsOf = cutsOf region ++
              (if 0 < d.maxSplit then rest.take (d.maxSplit - (num + 1 : Nat)).toNat
                else rest).flatMap cutsOf := by
          by_cases hlimit : 0 < d.maxSplit
          · have hleft : (d.maxSplit - num).toNat = (d.maxSplit - (num + 1 : Nat)).toNat + 1 := by
              omega
            rw [if_pos hlimit, if_pos hlimit, hleft, List.take_succ_cons, List.flatMap_cons]
          · rw [if_neg hlimit, if_neg hlimit, List.flatMap_cons]
        have hcall := hcallback _ (if_neg hstop)
        rw [hrest, cutAll_append]
        cases hcut : cutAll (cutsOf region) d with
        | error fault d' =>
            rw [bind_apply_error hcut] at hcall
            rw [bind_apply_error hcall, bind_apply_error hcut]
        | ok v d' =>
            rw [bind_apply_ok hcut] at hcall
            rw [bind_apply_ok hcall, bind_apply_ok hcut, ← cutAll_maxSplit hcut]
            exact ih (num + 1) d'

/-! ## Patterns without groups -/

/-- The region of a match without groups. -/
def matchRegion (r : Span) : OnigRegion := [⟨r.first, r.last⟩]

/-- The pieces between the matches, from a position on. -/
def placed (strType : StrType) (n : Nat) : Nat → List Span → List Piece
  | pos, [] => [⟨strType, pos, n - pos⟩]
  | pos, r :: rs => ⟨strType, pos, r.first - pos⟩ :: placed strType n r.last rs

/-- The pieces are `cuts + 1`, and with the first matches between them they are the subject. -/
def SplitsAt (s : Subject) (rs : List Span) (cuts : Nat) (o : Outcome) : Prop :=
  ∃ result, o = .returns result ∧ result.length = cuts + 1 ∧
    (∀ p ∈ result, p.strType = s.strType) ∧
    interleave (result.map (Piece.text s)) (separators s.data (rs.take cuts)) = s.data

section Plain

variable {n : Nat} {rs : List Span}

theorem outcome_cuts {d : SplitData} {pos : Nat} (h : InOrder n pos rs) (hpos : d.stop = pos) :
    outcome (do cutAll ((rs.map matchRegion).flatMap cutsOf); appendPiece n) d =
      .returns (d.result ++ placed d.strType n pos rs) := by
  induction rs generalizing d pos with
  | nil =>
      have hle : d.stop ≤ n := by
        rw [hpos]
        exact Int.ofNat_le.mpr h
      show outcome (appendPiece n) d = _
      rw [outcome, appendPiece_ok hle, hpos]
      rfl
  | cons r rs ih =>
      have hle : d.stop ≤ r.first := by
        rw [hpos]
        exact Int.ofNat_le.mpr h.1
      -- the reports are in order, so each cut begins behind the last one
      have hcut := cutAt_ok (g := ⟨r.first, r.last⟩) hle
      show outcome (do
        (do cutAt ⟨r.first, r.last⟩; cutAll ((rs.map matchRegion).flatMap cutsOf))
        appendPiece n) d = _
      have hrest := ih (d := d.cutOff ⟨r.first, r.last⟩) h.2.2 rfl
      unfold outcome at hrest ⊢
      rw [bind_assoc, bind_apply_ok hcut, hrest]
      show Outcome.returns (d.result ++ _ ++ _) = _
      rw [List.append_assoc, hpos]
      rfl

theorem length_placed (strType : StrType) (pos : Nat) :
    (placed strType n pos rs).length = rs.length + 1 := by
  induction rs generalizing pos with
  | nil => rfl
  | cons r rs ih => rw [placed, List.length_cons, ih, List.length_cons]

theorem strType_placed (strType : StrType) (pos : Nat) :
    ∀ p ∈ placed strType n pos rs, p.strType = strType := by
  induction rs generalizing pos with
  | nil =>
      intro p hp
      rw [List.mem_singleton.mp hp]
  | cons r rs ih =>
      intro p hp
      rcases List.mem_cons.mp hp with rfl | hp
      · rfl
      · exact ih r.last p hp

theorem text_placed (s : Subject) {pos : Nat} (h : InOrder s.data.length pos rs) :
    (placed s.strType s.data.length pos rs).map (Piece.text s) = pieces s.data pos rs := by
  induction rs generalizing pos with
  | nil =>
      show [slice s.data _ _] = [s.data.drop pos]
      have hend : ((pos : Int) + ((s.data.length : Int) - pos)).toNat = s.data.length := by omega
      have hall := slice_append_drop s.data (show pos ≤ s.data.length from h)
      rw [List.drop_length, List.append_nil] at hall
      rw [hend, Int.toNat_natCast, hall]
  | cons r rs ih =>
      have hend : ((pos : Int) + ((r.first : Int) - pos)).toNat = r.first := by omega
      rw [placed, List.map_cons, ih h.2.2, pieces, Piece.text, hend, Int.toNat_natCast]

end Plain

/-- `max_split` and its value in an `int` limit so many matches in the same way, and the argument
is a machine integer. -/
def KeepsLimit (a : Arch) (maxsplit : Int) (n : Nat) : Prop :=
  (-(a.word : Int) < 2 * maxsplit ∧ 2 * maxsplit < a.word) ∧
    (0 < maxsplit ∧ maxsplit < n ∨ 0 < cInt maxsplit ∧ cInt maxsplit < n →
      cInt maxsplit = maxsplit)

section Callers

variable {a : Arch} {self : Regex} {s : Subject} {rs : List Span} {maxsplit : Option Int}

/-- The two callers do the same. -/
theorem uefiModReSplit_eq {onigurumaCompile : List UInt8 → Option Regex} {pattern : List UInt8}
    (hcompile : onigurumaCompile pattern = some self) :
    uefiModReSplit a onigurumaCompile pattern s maxsplit = reSplit a self s maxsplit := by
  unfold uefiModReSplit reSplit
  cases getInt a (maxsplit.getD 0) with
  | error e => rfl
  | ok m => rw [hcompile]

/-- A run of `re_split`: the cuts, and then what is left. -/
theorem reSplit_cuts (hint : -(a.word : Int) < 2 * maxsplit.getD 0 ∧ 2 * maxsplit.getD 0 < a.word) :
    reSplit a self s maxsplit =
      outcome
        (do
          cutAll (((self.reports s.data).take
            (limitOf (cInt (maxsplit.getD 0)) (self.reports s.data).length)).flatMap cutsOf)
          appendPiece s.data.length)
        { strType := s.strType, stop := 0, maxSplit := cInt (maxsplit.getD 0), result := [] } := by
  have hgetInt : getInt a (maxsplit.getD 0) = .ok (maxsplit.getD 0) := if_pos hint
  have htake : ∀ M : Int, (if 0 < M then (self.reports s.data).take (M - (0 : Nat)).toNat
      else self.reports s.data) =
      (self.reports s.data).take (limitOf M (self.reports s.data).length) := by
    intro M
    unfold limitOf
    by_cases hM : 0 < M
    · rw [if_pos hM, if_pos hM, Int.natCast_zero, Int.sub_zero, List.take_eq_take_iff]
      omega
    · rw [if_neg hM, if_neg hM, List.take_length]
  unfold reSplit outcome
  rw [hgetInt]
  dsimp only
  rw [bind_apply_congr (onigScan_eq _ 0 _)]
  dsimp only
  rw [htake]

theorem reSplit_plain (hreports : self.reports s.data = rs.map matchRegion)
    (horder : InOrder s.data.length 0 rs)
    (hint : -(a.word : Int) < 2 * maxsplit.getD 0 ∧ 2 * maxsplit.getD 0 < a.word) :
    reSplit a self s maxsplit =
      .returns (placed s.strType s.data.length 0
        (rs.take (limitOf (cInt (maxsplit.getD 0)) rs.length))) := by
  rw [reSplit_cuts hint, hreports, List.length_map, ← List.map_take,
    outcome_cuts (horder.take _) rfl]
  rfl

/-- Without groups nothing is lost, and the two callers return the same, exactly when the
conversion of `max_split` keeps the limit. -/
theorem split_loses_nothing_iff (maxsplit : Option Int)
    (onigurumaCompile : List UInt8 → Option Regex) (pattern : List UInt8)
    (hcompile : onigurumaCompile pattern = some self)
    (hreports : self.reports s.data = rs.map matchRegion) (horder : InOrder s.data.length 0 rs) :
    SplitsAt s rs (limitOf (maxsplit.getD 0) rs.length) (reSplit a self s maxsplit) ∧
        uefiModReSplit a onigurumaCompile pattern s maxsplit = reSplit a self s maxsplit ↔
      KeepsLimit a (maxsplit.getD 0) rs.length := by
  have hshort : ∀ M : Int, (rs.take (limitOf M rs.length)).length = limitOf M rs.length := by
    intro M
    rw [List.length_take, limitOf]
    split <;> omega
  constructor
  · rintro ⟨⟨result, hresult, hlen, -, -⟩, -⟩
    by_cases hint : -(a.word : Int) < 2 * maxsplit.getD 0 ∧ 2 * maxsplit.getD 0 < a.word
    · refine ⟨hint, ?_⟩
      rw [reSplit_plain hreports horder hint] at hresult
      cases hresult
      rw [length_placed, hshort] at hlen
      exact limitOf_eq_iff.mp (Nat.succ.inj hlen)
    · -- an overflow is raised before anything is split
      have hover : getInt a (maxsplit.getD 0) =
          .error (.raise .overflowError "overflow converting long int to machine word") :=
        if_neg hint
      rw [reSplit, hover] at hresult
      cases hresult
  · rintro ⟨hint, hkeeps⟩
    refine ⟨?_, uefiModReSplit_eq hcompile⟩
    rw [← limitOf_eq_iff.mpr hkeeps]
    refine ⟨_, reSplit_plain hreports horder hint, ?_, strType_placed _ _, ?_⟩
    · rw [length_placed, hshort]
    · rw [text_placed s (horder.take _), interleave_pieces s.data (horder.take _)]
      rfl

end Callers

/-- The pattern `,`. -/
def comma : Regex where
  reports data := ((List.range data.length).filter fun i => data[i]? == some 0x2C).map
    fun i : Nat => [⟨(i : Int), (i : Int) + 1⟩]
  wellFormed := by
    intro data region hregion g hg
    rcases List.mem_map.mp hregion with ⟨i, hi, rfl⟩
    rw [List.mem_singleton.mp hg]
    have hlt : i < data.length := List.mem_range.mp (List.mem_of_mem_filter hi)
    right
    dsimp only
    omega

/-- `a,b,c` -/
def commas : Subject := ⟨.str, [0x61, 0x2C, 0x62, 0x2C, 0x63]⟩

/-- `re.split(',', 'a,b,c', 1)` is `['a', 'b,c']`, also of a compiled pattern. -/
theorem split_loses_nothing_commas :
    SplitsAt commas [⟨1, 2⟩, ⟨3, 4⟩] 1 (.returns [⟨.str, 0, 1⟩, ⟨.str, 2, 3⟩]) ∧
      uefiModReSplit .x64 (fun _ => some comma) [0x2C] commas (some 1) =
        .returns [⟨.str, 0, 1⟩, ⟨.str, 2, 3⟩] := by
  have hrun : reSplit .x64 comma commas (some 1) =
      .returns [⟨.str, 0, 1⟩, ⟨.str, 2, 3⟩] := by decide
  have hkeeps : KeepsLimit .x64 1 2 := ⟨by decide, fun _ => by decide⟩
  have hsplit := (split_loses_nothing_iff (a := .x64) (some 1) (fun _ => some comma) [0x2C] rfl
    (show comma.reports commas.data = [⟨1, 2⟩, ⟨3, 4⟩].map matchRegion by decide)
    (by decide)).mpr hkeeps
  rw [hrun] at hsplit
  exact hsplit

/-- A limit of 2 ** 32 + 1 is taken for a limit of one. -/
theorem max_split_wraps :
    ¬ SplitsAt commas [⟨1, 2⟩, ⟨3, 4⟩] (limitOf (2 ^ 32 + 1) 2)
      (reSplit .x64 comma commas (some (2 ^ 32 + 1))) := by
  have hrun : reSplit .x64 comma commas (some (2 ^ 32 + 1)) =
      .returns [⟨.str, 0, 1⟩, ⟨.str, 2, 3⟩] := by decide
  rintro ⟨result, hresult, hlen, -⟩
  rw [hrun] at hresult
  cases hresult
  exact absurd hlen (by decide)

end EfiLvgl.Re
