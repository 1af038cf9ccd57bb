import EfiLvgl.Lib.Source
import EfiLvgl.Lib.Run

/-!
# EfiLvgl.Py.Stream — reading a stream

The methods `read`, `read1`, `readline` and `readinto` of `stream.c`. All of them ask the stream
for bytes, and it answers as many as it likes; a stream that does not block may also say that there
are none yet. Text is read in characters: as long as some are missing, so many bytes are asked for
that none of what follows them is read. `textLoop_spec`, `readAll_spec` and `readLine_spec` say
what each loop has read; `stream_run` and `stream_keeps` are about a script that goes on reading.

The loops have fuel. `none` stands for a loop that has not ended with it, and it is enough when it
is more than the bytes that are left.
-/

namespace EfiLvgl.Py.Stream

open EfiLvgl.Source EfiLvgl.Run

universe u

/-- `MP_EAGAIN`, which is `MP_EWOULDBLOCK` too (`UefiCdefs.h`). -/
def mpEagain : Nat := 35

/-- `mp_is_nonblocking_error` -/
def isNonblockingError (errcode : Nat) : Bool := errcode == mpEagain

/-- What a method answers: `None`, a `str` or a `bytes`, a number of bytes with what is in the
buffer then, a list of lines, or `OSError`. -/
inductive Answer where
  | none
  | data (isText : Bool) (bytes : List UInt8)
  | into (bytes : List UInt8)
  | lines (isText : Bool) (lines : List (List UInt8))
  | osError (errcode : Nat)
deriving DecidableEq, Repr

/-- The bytes that a call hands to the script. -/
def Answer.bytes : Answer → List UInt8
  | .none => []
  | .data _ bytes => bytes
  | .into bytes => bytes
  | .lines _ ls => ls.flatten
  | .osError _ => []

variable {σ : Type u} (read : σ → Nat → σ × Except Nat (List UInt8))

/-- `mp_stream_rw` for reading, with the bytes that are in the buffer already and `*errcode`. Each
round reads a byte at least, so that the size is fuel enough. -/
def rwLoop (once : Bool) : Nat → σ → Nat → List UInt8 → σ × List UInt8 × Nat
  | 0, s, _, done => (s, done, 0)
  | fuel + 1, s, size, done =>
      if size = 0 then (s, done, 0)
      else
        match read s size with
        | (s, .error errcode) =>
            -- what was read before the error is not leaked
            (s, done, if isNonblockingError errcode ∧ done ≠ [] then 0 else errcode)
        | (s, .ok out) =>
            if out = [] then (s, done, 0)
            else if once then (s, out, 0)
            else rwLoop once fuel s (size - out.length) (done ++ out)

def mpStreamRw (once : Bool) (s : σ) (size : Nat) : σ × List UInt8 × Nat :=
  rwLoop read once size s size []

/-- The number of bytes of a character, from the first of them. -/
def charBytes (b : UInt8) : Nat :=
  if b &&& 0x80 = 0 then 1
  else if b &&& 0xe0 = 0xc0 then 2
  else if b &&& 0xf0 = 0xe0 then 3
  else if b &&& 0xf8 = 0xf0 then 4
  else 5

/-- The loop of `stream_read_generic` that counts the characters just read, from `off` on: `sz`,
`last_buf_offset` and `more_bytes` behind it. -/
def countChars (buf : List UInt8) : Nat → Nat → Nat → Nat × Nat × Nat
  | 0, off, sz => (sz, off, sz)
  | fuel + 1, off, sz =>
      let n := charBytes (buf.getD off 0)
      if off + n ≤ buf.length then
        if buf.length ≤ off + n then (sz - 1, off + n, sz - 1)
        else countChars buf fuel (off + n) (sz - 1)
      else (sz, off, off + n - buf.length + (sz - 1))

/-- The loop of `stream_read_generic` for text. The `more_bytes` that are added to the buffer and
cut off again where they were not read are left out of it. -/
def textLoop : Nat → σ → List UInt8 → Nat → Nat → Nat → Option (σ × Answer)
  | 0, _, _, _, _, _ => none
  | fuel + 1, s, buf, sz, moreBytes, lastBufOffset =>
      if moreBytes = 0 then some (s, .data true buf)
      else
        match mpStreamRw read false s moreBytes with
        | (s, out, error) =>
            if error ≠ 0 then
              if isNonblockingError error then
                some (s, if buf = [] then .none else .data true buf)
              else some (s, .osError error)
            else if out = [] then some (s, .data true buf)
            else
              match countChars (buf ++ out) (buf ++ out).length lastBufOffset sz with
              | (sz, lastBufOffset, moreBytes) =>
                  textLoop fuel s (buf ++ out) sz moreBytes lastBufOffset

/-- The end of `stream_read_generic`, for bytes. -/
def readBytes (once : Bool) (s : σ) (sz : Nat) : σ × Answer :=
  match mpStreamRw read once s sz with
  | (s, out, error) =>
      if error ≠ 0 then (s, if isNonblockingError error then .none else .osError error)
      else (s, .data false out)

/-- `DEFAULT_BUFFER_SIZE` -/
def defaultBufferSize : Nat := 256

/-- The loop of `stream_readall`. -/
def readAll (isText : Bool) : Nat → σ → List UInt8 → Nat → Option (σ × Answer)
  | 0, _, _, _ => none
  | fuel + 1, s, buf, currentRead =>
      match read s currentRead with
      | (s, .error error) =>
          if isNonblockingError error then
            some (s, if buf = [] then .none else .data isText buf)
          else some (s, .osError error)
      | (s, .ok out) =>
          if out = [] then some (s, .data isText buf)
          else if out.length < currentRead then
            readAll isText fuel s (buf ++ out) (currentRead - out.length)
          else readAll isText fuel s (buf ++ out) defaultBufferSize

/-- The loop of `stream_unbuffered_readline`; without a size there is no limit. -/
def readLine (isText : Bool) : Nat → σ → List UInt8 → Option Nat → Option (σ × Answer)
  | 0, _, _, _ => none
  | fuel + 1, s, buf, maxSize =>
      if maxSize = some 0 then some (s, .data isText buf)
      else
        match read s 1 with
        | (s, .error error) =>
            if isNonblockingError error then
              some (s, if buf = [] then .none else .data isText buf)
            else some (s, .osError error)
        | (s, .ok out) =>
            if out = [] then some (s, .data isText buf)
            else if out = [0x0a] then some (s, .data isText (buf ++ out))
            else readLine isText fuel s (buf ++ out) (maxSize.map (· - 1))

/-- The loop of `stream_unbuffered_readlines`: a line that is empty, or `None`, is the last. -/
def readLines (isText : Bool) (fuel : Nat) :
    Nat → σ → List (List UInt8) → Option (σ × Answer)
  | 0, _, _ => none
  | rounds + 1, s, lines =>
      match readLine read isText fuel s [] none with
      | none => none
      | some (s, .osError error) => some (s, .osError error)
      | some (s, line) =>
          if line.bytes = [] then some (s, .lines isText lines)
          else readLines isText fuel rounds s (lines ++ [line.bytes])

/-- `stream_readinto` of a buffer, with the length that is given or that of the buffer. -/
def streamReadinto (s : σ) (len : Nat) : σ × Answer :=
  match mpStreamRw read false s len with
  | (s, out, error) =>
      if error ≠ 0 then (s, if isNonblockingError error then .none else .osError error)
      else (s, .into out)

/-- What is asked of a stream; a size that is left out or -1 is `none`. -/
inductive Op where
  | read (sz : Option Nat)
  | read1 (sz : Option Nat)
  | readline (maxSize : Option Nat)
  | readinto (len : Nat)

/-- `stream_read_generic` -/
def streamReadGeneric (isText : Bool) (fuel : Nat) (once : Bool) (s : σ) :
    Option Nat → Option (σ × Answer)
  | none => readAll read isText fuel s [] defaultBufferSize
  | some sz =>
      if isText then textLoop read fuel s [] sz sz 0 else some (readBytes read once s sz)

/-- One call. -/
def call (isText : Bool) (fuel : Nat) (s : σ) : Op → Option (σ × Answer)
  | .read sz => streamReadGeneric read isText fuel false s sz
  | .read1 sz => streamReadGeneric read isText fuel true s sz
  | .readline maxSize => readLine read isText fuel s [] maxSize
  | .readinto len => some (streamReadinto read s len)

def step (isText : Bool) (fuel : Nat) : Step σ Op Answer
  | s, op => (call read isText fuel s op).map fun r => (r.1, [r.2])

/-! ## What is left -/

/-- The bytes up to the end of a line, or up to a number of them. -/
def takeLine : Option Nat → List UInt8 → List UInt8
  | _, [] => []
  | maxSize, b :: bs =>
      if maxSize = some 0 then []
      else if b = 0x0a then [b]
      else b :: takeLine (maxSize.map (· - 1)) bs

section Loops

variable {read} {rest : σ → List UInt8} {nonBlocking : Prop}

theorem charBytes_pos (b : UInt8) : 0 < charBytes b := by
  rw [charBytes]
  split
  · exact Nat.one_pos
  · split
    · omega
    · split
      · omega
      · split <;> omega

/-- A call has read the bytes `new` behind those in the buffer. They are all that it was to read, or
the first of them if the stream was not ready; then it may be that nothing was read at all. -/
inductive Outcome (rest : σ → List UInt8) (nonBlocking : Prop) (answer : List UInt8 → Answer)
    (s : σ) (buf : List UInt8) (whole : List UInt8 → Prop) : σ × Answer → Prop where
  | nothing {s' : σ} : nonBlocking → buf = [] → rest s' = rest s →
      Outcome rest nonBlocking answer s buf whole (s', .none)
  | bytes {s' : σ} {new : List UInt8} (tail : List UInt8) : rest s = new ++ rest s' →
      whole (new ++ tail) → (tail = [] ∨ nonBlocking) →
      Outcome rest nonBlocking answer s buf whole (s', answer (buf ++ new))

/-- What was read last is put behind the buffer. -/
theorem Outcome.behind {answer : List UInt8 → Answer} {s s₁ : σ} {buf out : List UInt8}
    {whole whole₁ : List UInt8 → Prop} {r : σ × Answer} (hout : out ≠ [])
    (hrest : rest s = out ++ rest s₁) (hwhole : ∀ new, whole₁ new → whole (out ++ new))
    (h : Outcome rest nonBlocking answer s₁ (buf ++ out) whole₁ r) :
    Outcome rest nonBlocking answer s buf whole r := by
  cases h with
  | nothing _ hempty _ => exact absurd (List.append_eq_nil_iff.mp hempty).2 hout
  | @bytes s' new tail hnew hall hor =>
      rw [List.append_assoc]
      refine .bytes tail ?_ ?_ hor
      · rw [hrest, hnew, List.append_assoc]
      · rw [List.append_assoc]
        exact hwhole _ hall

/-- Nothing more is read. -/
theorem Outcome.stop {answer : List UInt8 → Answer} {s s' : σ} {buf tail : List UInt8}
    {whole : List UInt8 → Prop} (hrest : rest s' = rest s) (hall : whole tail)
    (hor : tail = [] ∨ nonBlocking) :
    Outcome rest nonBlocking answer s buf whole (s', answer buf) := by
  have hdata : Outcome rest nonBlocking answer s buf whole (s', answer (buf ++ [])) :=
    .bytes tail hrest.symm hall hor
  rwa [List.append_nil] at hdata

/-- The answer when the stream is not ready. -/
theorem Outcome.again {answer : List UInt8 → Answer} {s s' : σ} {buf tail : List UInt8}
    {whole : List UInt8 → Prop} (hnb : nonBlocking) (hrest : rest s' = rest s)
    (hall : whole tail) :
    Outcome rest nonBlocking answer s buf whole
      (s', if buf = [] then .none else answer buf) := by
  by_cases hempty : buf = []
  · rw [if_pos hempty]
    exact .nothing hnb hempty hrest
  · rw [if_neg hempty]
    exact .stop hrest hall (.inr hnb)

/-! ## `mp_stream_rw` -/

/-- The bytes `new` were read behind the `done` ones: as many as were asked for, or all there are,
unless the stream was not ready or only one read is made. With an error nothing was read. -/
def HasRead (rest : σ → List UInt8) (nonBlocking : Prop) (once : Bool) (s : σ) (size : Nat)
    (done : List UInt8) (r : σ × List UInt8 × Nat) : Prop :=
  ∃ new, r.2.1 = done ++ new ∧ rest s = new ++ rest r.1 ∧ new.length ≤ size ∧
    (r.2.2 ≠ 0 → r.2.2 = mpEagain ∧ nonBlocking ∧ done = [] ∧ new = []) ∧
    (r.2.2 = 0 → done = [] → new = [] → size = 0 ∨ rest s = []) ∧
    (once = false → new.length = size ∨ rest r.1 = [] ∨ nonBlocking)

theorem HasRead.nothing {once : Bool} {s : σ} {size : Nat} {done : List UInt8}
    (hzero : size = 0) : HasRead rest nonBlocking once s size done (s, done, 0) := by
  refine ⟨[], (List.append_nil done).symm, rfl, Nat.zero_le _, fun hne => absurd rfl hne, ?_, ?_⟩
  · intro _ _ _
    exact .inl hzero
  · intro _
    exact .inl hzero.symm

theorem rwLoop_spec (h : Delivers read rest mpEagain nonBlocking) (once : Bool) {fuel : Nat}
    {s : σ} {size : Nat} {done : List UInt8} (hfuel : size ≤ fuel)
    (hdone : once = true → done = []) :
    HasRead rest nonBlocking once s size done (rwLoop read once fuel s size done) := by
  induction fuel generalizing s size done with
  | zero => exact .nothing (Nat.le_zero.mp hfuel)
  | succ fuel ih =>
      rw [rwLoop]
      by_cases hzero : size = 0
      · rw [if_pos hzero]
        exact .nothing hzero
      · rw [if_neg hzero]
        have hpos : 0 < size := Nat.pos_of_ne_zero hzero
        cases hread : read s size with
        | mk s₁ answer =>
          cases answer with
          | error errcode =>
              -- not ready: an error only if nothing was read before it
              obtain ⟨rfl, hnb, hsame⟩ := h.error hpos hread
              refine ⟨[], (List.append_nil done).symm, hsame.symm, Nat.zero_le _, ?_, ?_, ?_⟩
              · intro hne
                by_cases hempty : done = []
                · refine ⟨?_, hnb, hempty, rfl⟩
                  exact if_neg fun hand => hand.2 hempty
                · exact absurd (if_pos ⟨rfl, hempty⟩) hne
              · intro heq hempty _
                simp only [hempty, ne_eq, not_true_eq_false, and_false, if_false] at heq
                cases heq
              · intro _
                exact .inr (.inr hnb)
          | ok out =>
              obtain ⟨hle, hrest, hend⟩ := h.values hpos hread
              by_cases hout : out = []
              · -- the end of the stream
                simp only [if_pos hout]
                subst hout
                refine ⟨[], (List.append_nil done).symm, hrest, Nat.zero_le _,
                  fun hne => absurd rfl hne, fun _ _ _ => .inr (hend rfl), ?_⟩
                intro _
                rw [hend rfl] at hrest
                exact .inr (.inl hrest.symm)
              · simp only [if_neg hout]
                cases once with
                | true =>
                    rw [if_pos rfl, hdone rfl]
                    refine ⟨out, rfl, hrest, hle, fun hne => absurd rfl hne, ?_, ?_⟩
                    · intro _ _ hnil
                      exact absurd hnil hout
                    · intro hfalse
                      cases hfalse
                | false =>
                    -- a read that brings bytes leaves less to be read, so the fuel is enough
                    rw [if_neg Bool.false_ne_true]
                    have hlen : 0 < out.length := List.length_pos_iff.mpr hout
                    have hsize : size - out.length ≤ fuel := by omega
                    have hlater : HasRead rest nonBlocking false s₁ (size - out.length)
                        (done ++ out)
                        (rwLoop read false fuel s₁ (size - out.length) (done ++ out)) := by
                      apply ih hsize
                      intro hfalse
                      cases hfalse
                    obtain ⟨new, hdata, hrest', hle', herror, hnone, hall⟩ := hlater
                    have hfilled : done ++ out ≠ [] := by
                      intro hnil
                      exact hout (List.append_eq_nil_iff.mp hnil).2
                    refine ⟨out ++ new, ?_, ?_, ?_, ?_, ?_, ?_⟩
                    · rw [hdata, List.append_assoc]
                    · rw [hrest, List.append_assoc, ← hrest']
                    · rw [List.length_append]
                      omega
                    · intro hne
                      exact absurd (herror hne).2.2.1 hfilled
                    · intro _ _ hnil
                      exact absurd (List.append_eq_nil_iff.mp hnil).1 hout
                    · intro honce
                      refine (hall honce).imp_left ?_
                      intro heq
                      rw [List.length_append]
                      omega

/-- What one call of `mp_stream_rw` for reading comes to. -/
theorem mpStreamRw_spec (h : Delivers read rest mpEagain nonBlocking) (once : Bool) (s : σ)
    (size : Nat) : ∃ s' new error, mpStreamRw read once s size = (s', new, error) ∧
      rest s = new ++ rest s' ∧ new.length ≤ size ∧
      (error ≠ 0 → error = mpEagain ∧ nonBlocking ∧ new = []) ∧
      (error = 0 → new = [] → size = 0 ∨ rest s = []) ∧
      (once = false → new = (rest s).take size ∨ nonBlocking) := by
  have hread : HasRead rest nonBlocking once s size [] (rwLoop read once size s size []) :=
    rwLoop_spec h once (Nat.le_refl size) fun _ => rfl
  rw [mpStreamRw]
  cases hloop : rwLoop read once size s size [] with
  | mk s' outcome =>
    rcases outcome with ⟨out, error⟩
    rw [hloop] at hread
    obtain ⟨new, rfl, hrest, hle, herror, hnone, hall⟩ := hread
    refine ⟨s', out, error, rfl, hrest, hle, ?_, fun heq => hnone heq rfl, ?_⟩
    · intro hne
      exact ⟨(herror hne).1, (herror hne).2.1, (herror hne).2.2.2⟩
    · intro honce
      rcases hall honce with heq | hend | hnb
      · refine .inl ?_
        rw [hrest, ← heq, List.take_left]
      · refine .inl ?_
        rw [hrest, hend, List.append_nil, List.take_of_length_le hle]
      · exact .inr hnb

/-! ## Text -/

/-- The characters that are missing: `part` is the beginning of one, or nothing, and `more` bytes
are asked for. -/
def Pending (sz : Nat) (part : List UInt8) (more : Nat) : Prop :=
  part = [] ∧ more = sz ∨
    ∃ b bs, part = b :: bs ∧ 0 < sz ∧ part.length < charBytes b ∧
      more = charBytes b - part.length + (sz - 1)

/-- The beginning of a character is not behind those that are read. -/
theorem Pending.begins {sz more : Nat} {part : List UInt8} (h : Pending sz part more)
    (l : List UInt8) : ∃ tail, part ++ tail = takeUnits charBytes sz (part ++ l) := by
  rcases h with ⟨rfl, -⟩ | ⟨b, bs, rfl, hsz, hlt, -⟩
  · exact ⟨_, rfl⟩
  · obtain ⟨sz, rfl⟩ := Nat.exists_eq_add_one.mpr hsz
    rw [List.cons_append, takeUnits, ← List.cons_append,
      List.take_append, List.take_of_length_le (Nat.le_of_lt hlt), List.append_assoc]
    exact ⟨_, rfl⟩

/-- Where nothing comes behind it, a beginning is all that is taken. -/
theorem Pending.at_end {sz more : Nat} {part : List UInt8} (h : Pending sz part more) :
    part = takeUnits charBytes sz part := by
  rcases h with ⟨rfl, -⟩ | ⟨b, bs, rfl, hsz, hlt, -⟩
  · rw [takeUnits_nil]
  · obtain ⟨sz, rfl⟩ := Nat.exists_eq_add_one.mpr hsz
    rw [takeUnits_part (Nat.le_of_lt hlt)]

/-- No more was read than belongs to the characters that are missing. -/
theorem Pending.fits {sz more : Nat} {part out : List UInt8} (h : Pending sz part more)
    (hout : out ≠ []) (hle : out.length ≤ more) :
    ∃ b bs, part ++ out = b :: bs ∧ 0 < sz ∧
      (part ++ out).length ≤ charBytes b + (sz - 1) := by
  have hpos : 0 < out.length := List.length_pos_iff.mpr hout
  rw [List.length_append]
  rcases h with ⟨rfl, rfl⟩ | ⟨b, bs, rfl, hsz, hlt, rfl⟩
  · cases out with
    | nil => exact absurd rfl hout
    | cons b bs =>
        have hchar := charBytes_pos b
        refine ⟨b, bs, rfl, by omega, ?_⟩
        rw [List.length_nil]
        omega
  · -- the beginning of a character stays in front
    exact ⟨b, bs ++ out, rfl, hsz, by omega⟩

/-- The loop over the bytes just read takes whole characters from them, and no more of them than
are wanted. -/
theorem countChars_spec {buf : List UInt8} {fuel off sz : Nat} {b : UInt8} {bs : List UInt8}
    (hpart : buf.drop off = b :: bs) (hfuel : (buf.drop off).length ≤ fuel) (hsz : 0 < sz)
    (hfits : (buf.drop off).length ≤ charBytes b + (sz - 1)) :
    ∃ sz' last' more', countChars buf fuel off sz = (sz', last', more') ∧ last' ≤ buf.length ∧
      Pending sz' (buf.drop last') more' ∧
      ∃ front, buf.drop off = front ++ buf.drop last' ∧
        ∀ rest, takeUnits charBytes sz (buf.drop off ++ rest) =
          front ++ takeUnits charBytes sz' (buf.drop last' ++ rest) := by
  induction fuel generalizing off sz b bs with
  | zero =>
      rw [hpart] at hfuel
      cases hfuel
  | succ fuel ih =>
      obtain ⟨sz, rfl⟩ := Nat.exists_eq_add_one.mpr hsz
      have hbyte : buf.getD off 0 = b := by
        have hhead : (buf.drop off)[0]? = some b := by rw [hpart]; rfl
        rw [List.getElem?_drop, Nat.add_zero] at hhead
        rw [List.getD_eq_getElem?_getD, hhead]
        rfl
      have hlen : (buf.drop off).length = buf.length - off := List.length_drop
      have hcons : (buf.drop off).length = bs.length + 1 := by rw [hpart]; rfl
      have hchar := charBytes_pos b
      simp only [countChars, hbyte, Nat.add_sub_cancel]
      by_cases hwhole : off + charBytes b ≤ buf.length
      · -- a whole character
        rw [if_pos hwhole]
        have hdrop : (b :: bs).drop (charBytes b) = buf.drop (off + charBytes b) := by
          rw [← hpart, List.drop_drop]
        have hle : charBytes b ≤ (b :: bs).length := by
          rw [← hpart]
          omega
        have htake : ∀ rest, takeUnits charBytes (sz + 1) (buf.drop off ++ rest) =
            (b :: bs).take (charBytes b) ++
              takeUnits charBytes sz (buf.drop (off + charBytes b) ++ rest) := by
          intro rest
          rw [hpart, takeUnits_whole hle, hdrop]
        have hsplit : buf.drop off =
            (b :: bs).take (charBytes b) ++ buf.drop (off + charBytes b) := by
          rw [← hdrop, List.take_append_drop, hpart]
        by_cases hlast : buf.length ≤ off + charBytes b
        · rw [if_pos hlast]
          refine ⟨sz, off + charBytes b, sz, rfl, hwhole, .inl ⟨?_, rfl⟩, _, hsplit, htake⟩
          exact List.drop_eq_nil_of_le hlast
        · rw [if_neg hlast]
          have hlen' : (buf.drop (off + charBytes b)).length = buf.length - (off + charBytes b) :=
            List.length_drop
          cases hnext : buf.drop (off + charBytes b) with
          | nil =>
              rw [hnext, List.length_nil] at hlen'
              omega
          | cons c cs =>
              have hchar' := charBytes_pos c
              rw [hnext] at hlen'
              rw [List.length_cons] at hlen'
              have hsz' : 0 < sz := by omega
              have hfits' : (buf.drop (off + charBytes b)).length ≤ charBytes c + (sz - 1) := by
                rw [hnext, List.length_cons]
                omega
              have hfuel' : (buf.drop (off + charBytes b)).length ≤ fuel := by
                rw [hnext, List.length_cons]
                omega
              obtain ⟨sz', last', more', hcount, hbound, hpending, front, hfront, hrest⟩ :=
                ih hnext hfuel' hsz' hfits'
              refine ⟨sz', last', more', hcount, hbound, hpending,
                (b :: bs).take (charBytes b) ++ front, ?_, ?_⟩
              · rw [hsplit, hfront, List.append_assoc]
              · intro rest
                rw [htake, hrest, List.append_assoc]
      · -- the beginning of one
        rw [if_neg hwhole]
        refine ⟨sz + 1, off, _, rfl, by omega, .inr ⟨b, bs, hpart, hsz, by omega, ?_⟩, [], rfl,
          fun rest => rfl⟩
        omega

/-- Text is read up to so many characters. -/
theorem textLoop_spec (h : Delivers read rest mpEagain nonBlocking) {fuel : Nat} {s : σ}
    {buf : List UInt8} {sz more last : Nat} (hfuel : (rest s).length < fuel)
    (hlast : last ≤ buf.length) (hpending : Pending sz (buf.drop last) more) :
    ∃ r, textLoop read fuel s buf sz more last = some r ∧
      Outcome rest nonBlocking (.data true) s buf
        (fun new => buf.drop last ++ new = takeUnits charBytes sz (buf.drop last ++ rest s)) r := by
  induction fuel generalizing s buf sz more last with
  | zero => cases hfuel
  | succ fuel ih =>
      rw [textLoop]
      by_cases hzero : more = 0
      · -- nothing is missing
        rw [if_pos hzero]
        refine ⟨_, rfl, .stop rfl ?_ (.inl rfl)⟩
        rcases hpending with ⟨hpart, hmore⟩ | ⟨b, bs, hpart, hsz, hlt, hmore⟩
        · rw [hpart, ← hmore, hzero]
          rfl
        · omega
      · rw [if_neg hzero]
        obtain ⟨s₁, out, error, hrw, hrest, hle, herror, hnone, -⟩ := mpStreamRw_spec h false s more
        simp only [hrw]
        by_cases hne : error = 0
        · rw [if_neg (not_not.mpr hne)]
          by_cases hout : out = []
          · -- the end of the stream, perhaps within a character
            rw [if_pos hout]
            have hempty : rest s = [] := (hnone hne hout).resolve_left hzero
            have hsame : rest s₁ = rest s := by
              rw [hrest, hout]
              rfl
            refine ⟨_, rfl, .stop hsame ?_ (.inl rfl)⟩
            rw [hempty, List.append_nil]
            exact hpending.at_end
          · rw [if_neg hout]
            have hpos : 0 < out.length := List.length_pos_iff.mpr hout
            have hdrop : (buf ++ out).drop last = buf.drop last ++ out :=
              List.drop_append_of_le_length hlast
            have hfits := hpending.fits hout hle
            rw [← hdrop] at hfits
            obtain ⟨b, bs, hpart, hsz, hroom⟩ := hfits
            have henough : ((buf ++ out).drop last).length ≤ (buf ++ out).length := by
              rw [List.length_drop]
              omega
            obtain ⟨sz', last', more', hcount, hbound, hpending', front, hfront, htake⟩ :=
              countChars_spec hpart henough hsz hroom
            have hless : (rest s₁).length < fuel := by
              have hsum := congrArg List.length hrest
              rw [List.length_append] at hsum
              omega
            obtain ⟨r, hloop, houtcome⟩ := ih hless hbound hpending'
            simp only [hcount]
            refine ⟨r, hloop, houtcome.behind hout hrest ?_⟩
            intro new hnew
            calc buf.drop last ++ (out ++ new)
                = (buf ++ out).drop last ++ new := by rw [hdrop, List.append_assoc]
              _ = front ++ ((buf ++ out).drop last' ++ new) := by rw [hfront, List.append_assoc]
              _ = front ++ takeUnits charBytes sz' ((buf ++ out).drop last' ++ rest s₁) := by
                  rw [hnew]
              _ = takeUnits charBytes sz ((buf ++ out).drop last ++ rest s₁) := (htake _).symm
              _ = takeUnits charBytes sz (buf.drop last ++ rest s) := by
                  rw [hdrop, hrest, List.append_assoc]
        · -- the stream is not ready
          rw [if_pos hne]
          obtain ⟨rfl, hnb, rfl⟩ := herror hne
          obtain ⟨tail, htail⟩ := hpending.begins (rest s)
          exact ⟨_, rfl, Outcome.again hnb hrest.symm htail⟩

/-! ## All, and lines -/

/-- Everything is read. -/
theorem readAll_spec (h : Delivers read rest mpEagain nonBlocking) (isText : Bool) {fuel : Nat}
    {s : σ} {buf : List UInt8} {current : Nat} (hfuel : (rest s).length < fuel)
    (hcurrent : 0 < current) :
    ∃ r, readAll read isText fuel s buf current = some r ∧
      Outcome rest nonBlocking (.data isText) s buf (fun new => new = rest s) r := by
  induction fuel generalizing s buf current with
  | zero => cases hfuel
  | succ fuel ih =>
      rw [readAll]
      cases hread : read s current with
      | mk s₁ answer =>
        cases answer with
        | error e =>
            obtain ⟨rfl, hnb, hsame⟩ := h.error hcurrent hread
            exact ⟨_, rfl, Outcome.again hnb hsame rfl⟩
        | ok out =>
            obtain ⟨hle, hrest, hend⟩ := h.values hcurrent hread
            by_cases hout : out = []
            · simp only [if_pos hout]
              -- nothing read: the stream has ended
              have hempty : rest s = [] := hend hout
              rw [hempty, hout] at hrest
              exact ⟨_, rfl, .stop (hrest.symm.trans hempty.symm) hempty.symm (.inl rfl)⟩
            · simp only [if_neg hout]
              have hpos : 0 < out.length := List.length_pos_iff.mpr hout
              have hless : (rest s₁).length < fuel := by
                have hsum := congrArg List.length hrest
                rw [List.length_append] at hsum
                omega
              -- what was read is in front of all that comes, however much is asked for next
              have hgo : ∀ next, 0 < next →
                  ∃ r, readAll read isText fuel s₁ (buf ++ out) next = some r ∧
                    Outcome rest nonBlocking (.data isText) s buf (fun new => new = rest s) r := by
                intro next hnext
                have hlater : ∃ r, readAll read isText fuel s₁ (buf ++ out) next = some r ∧
                    Outcome rest nonBlocking (.data isText) s₁ (buf ++ out)
                      (fun new => new = rest s₁) r := ih hless hnext
                obtain ⟨r, hloop, houtcome⟩ := hlater
                refine ⟨r, hloop, houtcome.behind hout hrest ?_⟩
                rintro new rfl
                exact hrest.symm
              by_cases hshort : out.length < current
              · rw [if_pos hshort]
                exact hgo _ (by omega)
              · rw [if_neg hshort]
                exact hgo _ (by decide)

theorem takeLine_zero (l : List UInt8) : takeLine (some 0) l = [] := by
  cases l with
  | nil => rfl
  | cons b bs => rfl

/-- A line is read. -/
theorem readLine_spec (h : Delivers read rest mpEagain nonBlocking) (isText : Bool) {fuel : Nat}
    {s : σ} {buf : List UInt8} {maxSize : Option Nat} (hfuel : (rest s).length < fuel) :
    ∃ r, readLine read isText fuel s buf maxSize = some r ∧
      Outcome rest nonBlocking (.data isText) s buf
        (fun new => new = takeLine maxSize (rest s)) r := by
  induction fuel generalizing s buf maxSize with
  | zero => cases hfuel
  | succ fuel ih =>
      rw [readLine]
      by_cases hzero : maxSize = some 0
      · rw [if_pos hzero, hzero]
        exact ⟨_, rfl, .stop rfl (takeLine_zero _).symm (.inl rfl)⟩
      · rw [if_neg hzero]
        cases hread : read s 1 with
        | mk s₁ answer =>
          cases answer with
          | error e =>
              obtain ⟨rfl, hnb, hsame⟩ := h.error Nat.one_pos hread
              exact ⟨_, rfl, Outcome.again hnb hsame rfl⟩
          | ok out =>
              obtain ⟨hle, hrest, hend⟩ := h.values Nat.one_pos hread
              cases out with
              | nil =>
                  simp only [if_pos]
                  have hempty : rest s = [] := hend rfl
                  have hline : [] = takeLine maxSize (rest s) := by
                    rw [hempty]
                    rfl
                  exact ⟨_, rfl, .stop hrest.symm hline (.inl rfl)⟩
              | cons b bs =>
                  -- a single byte was asked for
                  have hsingle : bs = [] := by
                    apply List.eq_nil_of_length_eq_zero
                    rw [List.length_cons] at hle
                    omega
                  subst hsingle
                  have hne : [b] ≠ [] := List.cons_ne_nil b []
                  have hline : takeLine maxSize (rest s) =
                      if b = 0x0a then [b] else b :: takeLine (maxSize.map (· - 1)) (rest s₁) := by
                    rw [hrest, List.singleton_append, takeLine, if_neg hzero]
                  simp only [if_neg hne, List.cons.injEq, and_true]
                  by_cases hnewline : b = 0x0a
                  · rw [if_pos hnewline]
                    rw [if_pos hnewline] at hline
                    refine ⟨_, rfl, .bytes [] hrest ?_ (.inl rfl)⟩
                    rw [hline]
                    rfl
                  · rw [if_neg hnewline]
                    rw [if_neg hnewline] at hline
                    have hless : (rest s₁).length < fuel := by
                      have hsum := congrArg List.length hrest
                      rw [List.length_append, List.length_singleton] at hsum
                      omega
                    have hlater : ∃ r, readLine read isText fuel s₁ (buf ++ [b])
                          (maxSize.map (· - 1)) = some r ∧
                        Outcome rest nonBlocking (.data isText) s₁ (buf ++ [b])
                          (fun new => new = takeLine (maxSize.map (· - 1)) (rest s₁)) r :=
                      ih hless
                    obtain ⟨r, hloop, houtcome⟩ := hlater
                    refine ⟨r, hloop, houtcome.behind hne hrest ?_⟩
                    rintro new rfl
                    exact hline.symm

/-- The lines of a text, each with its end. -/
def linesOf : List UInt8 → List (List UInt8)
  | [] => []
  | b :: bs =>
      if b = 0x0a then [b] :: linesOf bs
      else
        match linesOf bs with
        | [] => [[b]]
        | line :: lines => (b :: line) :: lines

theorem takeLine_none (b : UInt8) (bs : List UInt8) :
    takeLine none (b :: bs) = if b = 0x0a then [b] else b :: takeLine none bs := by
  have hlimit : ¬ (none : Option Nat) = some 0 := by
    intro h
    cases h
  rw [takeLine, if_neg hlimit, Option.map_none]

theorem linesOf_cons (b : UInt8) (bs : List UInt8) :
    linesOf (b :: bs) = takeLine none (b :: bs) ::
      linesOf ((b :: bs).drop (takeLine none (b :: bs)).length) := by
  induction bs generalizing b with
  | nil =>
      rw [takeLine_none, linesOf]
      by_cases hb : b = 0x0a
      · rw [if_pos hb, if_pos hb]
        rfl
      · rw [if_neg hb, if_neg hb]
        rfl
  | cons c cs ih =>
      rw [takeLine_none, linesOf]
      by_cases hb : b = 0x0a
      · rw [if_pos hb, if_pos hb]
        rfl
      · rw [if_neg hb, if_neg hb, ih c]
        rfl

theorem flatten_linesOf (l : List UInt8) : (linesOf l).flatten = l := by
  induction l with
  | nil => rfl
  | cons b bs ih =>
      rw [linesOf]
      by_cases hb : b = 0x0a
      · rw [if_pos hb, List.flatten_cons, ih, List.singleton_append]
      · rw [if_neg hb]
        cases hlines : linesOf bs with
        | nil =>
            rw [hlines] at ih
            rw [← ih]
            rfl
        | cons line lines =>
            rw [hlines] at ih
            rw [← ih]
            rfl

/-- A line has an end and nothing behind it; only the last line may have none. -/
theorem linesOf_shape (l : List UInt8) :
    (∀ line ∈ linesOf l, line ≠ [] ∧ 0x0a ∉ line.dropLast) ∧
      ∀ line ∈ (linesOf l).dropLast, line.getLast? = some 0x0a := by
  induction l with
  | nil => exact ⟨fun _ hline => (List.not_mem_nil hline).elim,
      fun _ hline => (List.not_mem_nil hline).elim⟩
  | cons b bs ih =>
      obtain ⟨hall, hends⟩ := ih
      rw [linesOf]
      -- the byte is a line of its own, or goes in front of the next line
      by_cases hb : b = 0x0a
      · rw [if_pos hb]
        constructor
        · intro line hline
          rcases List.mem_cons.mp hline with rfl | hlater
          · exact ⟨List.cons_ne_nil b [], List.not_mem_nil⟩
          · exact hall line hlater
        · intro line hline
          cases hlines : linesOf bs with
          | nil =>
              rw [hlines] at hline
              exact (List.not_mem_nil hline).elim
          | cons next lines =>
              rw [hlines, List.dropLast_cons_cons] at hline
              rcases List.mem_cons.mp hline with rfl | hlater
              · rw [hb]
                rfl
              · apply hends
                rw [hlines]
                exact hlater
      · rw [if_neg hb]
        cases hlines : linesOf bs with
        | nil =>
            constructor
            · intro line hline
              rw [List.mem_singleton.mp hline]
              exact ⟨List.cons_ne_nil b [], List.not_mem_nil⟩
            · intro line hline
              exact (List.not_mem_nil hline).elim
        | cons next lines =>
            rw [hlines] at hall hends
            -- the line has no newline in front of its last byte, since this one is none
            have hnext := hall next List.mem_cons_self
            constructor
            · intro line hline
              rcases List.mem_cons.mp hline with rfl | hlater
              · refine ⟨List.cons_ne_nil b next, ?_⟩
                rw [List.dropLast_cons_of_ne_nil hnext.1, List.mem_cons, not_or]
                exact ⟨Ne.symm hb, hnext.2⟩
              · exact hall line (List.mem_cons_of_mem next hlater)
            · intro line hline
              cases lines with
              | nil => exact (List.not_mem_nil hline).elim
              | cons after lines =>
                  rw [List.dropLast_cons_cons] at hline hends
                  rcases List.mem_cons.mp hline with rfl | hlater
                  · rw [List.getLast?_cons, hends next List.mem_cons_self]
                    rfl
                  · exact hends line (List.mem_cons_of_mem next hlater)

theorem readLines_data {isText : Bool} {fuel rounds : Nat} {s s' : σ} {lines : List (List UInt8)}
    {line : List UInt8}
    (hline : readLine read isText fuel s [] none = some (s', .data isText line)) :
    readLines read isText fuel (rounds + 1) s lines =
      if line = [] then some (s', .lines isText lines)
      else readLines read isText fuel rounds s' (lines ++ [line]) := by
  rw [readLines, hline]
  rfl

/-- A stream that blocks is read line by line up to its end. -/
theorem readLines_spec (h : Delivers read rest mpEagain False) (isText : Bool) {fuel rounds : Nat}
    {s : σ} {lines : List (List UInt8)} (hfuel : (rest s).length < fuel)
    (hrounds : (rest s).length < rounds) :
    ∃ s', readLines read isText fuel rounds s lines =
        some (s', .lines isText (lines ++ linesOf (rest s))) ∧ rest s' = [] := by
  induction rounds generalizing s lines with
  | zero => cases hrounds
  | succ rounds ih =>
      have hfirst : ∃ r, readLine read isText fuel s [] none = some r ∧
          Outcome rest False (.data isText) s [] (fun new => new = takeLine none (rest s)) r :=
        readLine_spec h isText hfuel
      obtain ⟨r, hline, houtcome⟩ := hfirst
      cases houtcome with
      | nothing hfalse _ _ => exact hfalse.elim
      | @bytes s₁ new tail hrest hall hor =>
          rw [hor.resolve_right id, List.append_nil] at hall
          rw [readLines_data hline, List.nil_append]
          cases hleft : rest s with
          | nil =>
              -- the end of the stream
              rw [hleft] at hall hrest
              subst hall
              refine ⟨s₁, ?_, hrest.symm⟩
              rw [takeLine, if_pos rfl, linesOf, List.append_nil]
          | cons b bs =>
              have hsome : new ≠ [] := by
                rw [hall, hleft, takeLine_none]
                split
                · exact List.cons_ne_nil b []
                · exact List.cons_ne_nil b _
              have hpos : 0 < new.length := List.length_pos_iff.mpr hsome
              have hsum := congrArg List.length hrest
              rw [List.length_append] at hsum
              have hlater : ∃ s', readLines read isText fuel rounds s₁ (lines ++ [new]) =
                  some (s', .lines isText (lines ++ [new] ++ linesOf (rest s₁))) ∧ rest s' = [] :=
                ih (by omega) (by omega)
              obtain ⟨s', hloop, hend⟩ := hlater
              refine ⟨s', ?_, hend⟩
              have hdrop : (rest s).drop new.length = rest s₁ := by
                rw [hrest, List.drop_left]
              rw [if_neg hsome, hloop, linesOf_cons, ← hleft, ← hall, hdrop, List.append_assoc,
                List.singleton_append]

/-! ## Calls -/

/-- What a call has read of the bytes `l` that are left, when nothing but their end can stop it.
One read of the stream may answer any number of bytes. -/
def Whole (isText : Bool) (l : List UInt8) : Op → List UInt8 → Prop
  | .read none, new => new = l
  | .read (some sz), new => new = if isText then takeUnits charBytes sz l else l.take sz
  | .read1 none, new => new = l
  | .read1 (some sz), new =>
      if isText then new = takeUnits charBytes sz l
      else new <+: l ∧ new.length ≤ sz ∧ (new = [] → sz = 0 ∨ l = [])
  | .readline maxSize, new => new = takeLine maxSize l
  | .readinto len, new => new = l.take len

/-- The answer with the bytes that were read. -/
def answerOf (isText : Bool) : Op → List UInt8 → Answer
  | .readinto _ => .into
  | _ => .data isText

theorem bytes_answerOf (isText : Bool) (op : Op) (new : List UInt8) :
    (answerOf isText op new).bytes = new := by
  cases op <;> rfl

/-- What `mp_stream_rw` has read is the beginning of what was asked for. -/
theorem take_of_rw {s s' : σ} {size : Nat} {new : List UInt8} (hrest : rest s = new ++ rest s')
    (hle : new.length ≤ size) (hor : new = (rest s).take size ∨ nonBlocking) :
    ∃ tail, new ++ tail = (rest s).take size ∧ (tail = [] ∨ nonBlocking) := by
  rcases hor with heq | hnb
  · exact ⟨[], by rw [List.append_nil, heq], .inl rfl⟩
  · refine ⟨(rest s').take (size - new.length), ?_, .inr hnb⟩
    rw [hrest, List.take_append, List.take_of_length_le hle]

theorem readBytes_spec (h : Delivers read rest mpEagain nonBlocking) (s : σ) (sz : Nat) :
    Outcome rest nonBlocking (.data false) s [] (fun new => new = (rest s).take sz)
      (readBytes read false s sz) := by
  obtain ⟨s', new, error, hrw, hrest, hle, herror, -, hall⟩ := mpStreamRw_spec h false s sz
  simp only [readBytes, hrw]
  by_cases hne : error = 0
  · rw [if_neg (not_not.mpr hne)]
    obtain ⟨tail, htake, hor⟩ := take_of_rw hrest hle (hall rfl)
    exact .bytes tail hrest htake hor
  · rw [if_pos hne]
    obtain ⟨rfl, hnb, rfl⟩ := herror hne
    exact .nothing hnb rfl hrest.symm

theorem readBytes_once (h : Delivers read rest mpEagain nonBlocking) (s : σ) (sz : Nat) :
    Outcome rest nonBlocking (.data false) s []
      (fun new => new <+: rest s ∧ new.length ≤ sz ∧ (new = [] → sz = 0 ∨ rest s = []))
      (readBytes read true s sz) := by
  obtain ⟨s', new, error, hrw, hrest, hle, herror, hnone, -⟩ := mpStreamRw_spec h true s sz
  simp only [readBytes, hrw]
  by_cases hne : error = 0
  · rw [if_neg (not_not.mpr hne)]
    refine .bytes [] hrest ?_ (.inl rfl)
    rw [List.append_nil]
    exact ⟨⟨rest s', hrest.symm⟩, hle, hnone hne⟩
  · rw [if_pos hne]
    obtain ⟨rfl, hnb, rfl⟩ := herror hne
    exact .nothing hnb rfl hrest.symm

theorem streamReadinto_spec (h : Delivers read rest mpEagain nonBlocking) (s : σ) (len : Nat) :
    Outcome rest nonBlocking .into s [] (fun new => new = (rest s).take len)
      (streamReadinto read s len) := by
  obtain ⟨s', new, error, hrw, hrest, hle, herror, -, hall⟩ := mpStreamRw_spec h false s len
  simp only [streamReadinto, hrw]
  by_cases hne : error = 0
  · rw [if_neg (not_not.mpr hne)]
    obtain ⟨tail, htake, hor⟩ := take_of_rw hrest hle (hall rfl)
    exact .bytes tail hrest htake hor
  · rw [if_pos hne]
    obtain ⟨rfl, hnb, rfl⟩ := herror hne
    exact .nothing hnb rfl hrest.symm

theorem textLoop_start (h : Delivers read rest mpEagain nonBlocking) {fuel : Nat} {s : σ}
    (hfuel : (rest s).length < fuel) (sz : Nat) :
    ∃ r, textLoop read fuel s [] sz sz 0 = some r ∧
      Outcome rest nonBlocking (.data true) s []
        (fun new => new = takeUnits charBytes sz (rest s)) r :=
  textLoop_spec h hfuel (Nat.le_refl 0) (.inl ⟨rfl, rfl⟩)

theorem call_spec (h : Delivers read rest mpEagain nonBlocking) (isText : Bool) {fuel : Nat}
    {s : σ} (hfuel : (rest s).length < fuel) (op : Op) :
    ∃ r, call read isText fuel s op = some r ∧
      Outcome rest nonBlocking (answerOf isText op) s [] (Whole isText (rest s) op) r := by
  have hall : ∃ r, readAll read isText fuel s [] defaultBufferSize = some r ∧
      Outcome rest nonBlocking (.data isText) s [] (fun new => new = rest s) r :=
    readAll_spec h isText hfuel (by decide)
  cases op with
  | read sz =>
      cases sz with
      | none => exact hall
      | some sz =>
          cases isText with
          | true => exact textLoop_start h hfuel sz
          | false => exact ⟨_, rfl, readBytes_spec h s sz⟩
  | read1 sz =>
      cases sz with
      | none => exact hall
      | some sz =>
          cases isText with
          | true => exact textLoop_start h hfuel sz
          | false => exact ⟨_, rfl, readBytes_once h s sz⟩
  | readline maxSize => exact readLine_spec h isText hfuel
  | readinto len => exact ⟨_, rfl, streamReadinto_spec h s len⟩

/-! ## Runs -/

/-- A step of the list of the bytes that are left. A stream that is not ready ends a call before it
has read everything, perhaps before it has read anything. -/
def Next (nonBlocking : Prop) (isText : Bool) (l : List UInt8) (op : Op) (answers : List Answer)
    (l' : List UInt8) : Prop :=
  (nonBlocking ∧ answers = [.none] ∧ l' = l) ∨
    ∃ new tail, Whole isText l op (new ++ tail) ∧ (tail = [] ∨ nonBlocking) ∧ l = new ++ l' ∧
      answers = [answerOf isText op new]

theorem Next.keeps {isText : Bool} {l l' : List UInt8} {op : Op} {answers : List Answer}
    (h : Next nonBlocking isText l op answers l') : answers.flatMap Answer.bytes ++ l' = l := by
  rcases h with ⟨-, rfl, rfl⟩ | ⟨new, tail, -, -, rfl, rfl⟩
  · rfl
  · rw [List.flatMap_singleton, bytes_answerOf]

/-- A call on the stream is a step on its bytes. -/
theorem step_next (h : Delivers read rest mpEagain nonBlocking) (isText : Bool) {fuel : Nat}
    {s : σ} (hfuel : (rest s).length < fuel) (op : Op) :
    ∃ s' answers, step read isText fuel s op = some (s', answers) ∧
      Next nonBlocking isText (rest s) op answers (rest s') := by
  obtain ⟨r, hcall, houtcome⟩ := call_spec h isText hfuel op
  rw [step, hcall]
  cases houtcome with
  | nothing hnb _ hsame => exact ⟨_, _, rfl, .inl ⟨hnb, rfl, hsame⟩⟩
  | bytes tail hrest hall hor => exact ⟨_, _, rfl, .inr ⟨_, tail, hall, hor, hrest, rfl⟩⟩

theorem run_next (h : Delivers read rest mpEagain nonBlocking) (isText : Bool) {fuel : Nat}
    (ops : List Op) {s : σ} (hfuel : (rest s).length < fuel) :
    ∃ s' answers, run (step read isText fuel) s ops = some (s', answers) ∧
      Trace (Next nonBlocking isText) (rest s) ops answers (rest s') := by
  induction ops generalizing s with
  | nil => exact ⟨s, [], rfl, .nil _⟩
  | cons op ops ih =>
      obtain ⟨s₁, answers₁, hstep, hnext⟩ := step_next h isText hfuel op
      -- no call puts bytes back
      have hless : (rest s₁).length < fuel := by
        have hsum := congrArg List.length hnext.keeps
        rw [List.length_append] at hsum
        omega
      obtain ⟨s', answers, hrun, htrace⟩ := ih hless
      refine ⟨s', answers₁ ++ answers, ?_, .cons hnext htrace⟩
      simp only [run, hstep, hrun]

theorem trace_keeps {isText : Bool} {l l' : List UInt8} {ops : List Op} {answers : List Answer}
    (h : Trace (Next nonBlocking isText) l ops answers l') :
    answers.flatMap Answer.bytes ++ l' = l := by
  induction h with
  | nil l => rfl
  | cons hnext _ ih =>
      rw [List.flatMap_append, List.append_assoc, ih]
      exact hnext.keeps

/-- A step of a stream that blocks: everything is read. -/
def Reads (isText : Bool) (l : List UInt8) (op : Op) (answers : List Answer) (l' : List UInt8) :
    Prop :=
  ∃ new, Whole isText l op new ∧ l = new ++ l' ∧ answers = [answerOf isText op new]

theorem Next.reads {isText : Bool} {l l' : List UInt8} {op : Op} {answers : List Answer}
    (h : Next False isText l op answers l') : Reads isText l op answers l' := by
  rcases h with ⟨hfalse, -⟩ | ⟨new, tail, hall, hor, hrest, hanswers⟩
  · exact hfalse.elim
  · rw [hor.resolve_right id, List.append_nil] at hall
    exact ⟨new, hall, hrest, hanswers⟩

theorem Trace.reads {isText : Bool} {l l' : List UInt8} {ops : List Op} {answers : List Answer}
    (h : Trace (Next False isText) l ops answers l') : Trace (Reads isText) l ops answers l' := by
  induction h with
  | nil l => exact .nil l
  | cons hnext _ ih => exact .cons hnext.reads ih

/-- A text of characters of one, two and three bytes, in two lines. -/
def sample : List UInt8 := [0x61, 0xc3, 0xa9, 0xe2, 0x82, 0xac, 0x0a, 0x62]

/-- Whatever is read of a stream that blocks, in whatever order, and in whatever pieces the stream
hands its bytes out: the answers are those of the bytes alone, text in whole characters, and what
is left behind the calls is what none of them was to read. -/
theorem stream_run (h : Delivers read rest mpEagain False) (isText : Bool) {fuel : Nat}
    (ops : List Op) {s : σ} (hfuel : (rest s).length < fuel) :
    ∃ s' answers, run (step read isText fuel) s ops = some (s', answers) ∧
      Trace (Reads isText) (rest s) ops answers (rest s') := by
  obtain ⟨s', answers, hrun, htrace⟩ := run_next h isText ops hfuel
  exact ⟨s', answers, hrun, Trace.reads htrace⟩

/-- Two bytes at most are handed out at once. -/
theorem stream_run_sample :
    ∃ s' answers, run (step (atMost Nat 1) true 9) sample
        [.read (some 2), .readline none, .read none] = some (s', answers) ∧
      Trace (Reads true) sample [.read (some 2), .readline none, .read none] answers s' :=
  stream_run (atMost_delivers 1 mpEagain) true _ (by decide)

example : run (step (atMost Nat 1) true 9) sample
    [.read (some 2), .readline none, .read none] =
      some ([], [.data true [0x61, 0xc3, 0xa9], .data true [0xe2, 0x82, 0xac, 0x0a],
        .data true [0x62]]) := by decide

/-- A stream may say at any time that it is not ready. Then a call answers `None`, or the beginning
of what it was to read, and no error is raised; over all calls no byte is lost, read twice, or
handed out in another order. -/
theorem stream_keeps (h : Delivers read rest mpEagain nonBlocking) (isText : Bool) {fuel : Nat}
    (ops : List Op) {s : σ} (hfuel : (rest s).length < fuel) :
    ∃ s' answers, run (step read isText fuel) s ops = some (s', answers) ∧
      Trace (Next nonBlocking isText) (rest s) ops answers (rest s') ∧
      answers.flatMap Answer.bytes ++ rest s' = rest s := by
  obtain ⟨s', answers, hrun, htrace⟩ := run_next h isText ops hfuel
  exact ⟨s', answers, hrun, htrace, trace_keeps htrace⟩

/-- The stream is not ready within a character. -/
theorem stream_keeps_sample :
    ∃ s' answers, run (step (pieces mpEagain) true 9) (sample, [2, 0, 0])
        [.read (some 2), .readline none, .read none] = some (s', answers) ∧
      Trace (Next True true) sample [.read (some 2), .readline none, .read none] answers s'.1 ∧
      answers.flatMap Answer.bytes ++ s'.1 = sample :=
  stream_keeps (pieces_delivers mpEagain) true _ (by decide)

example : run (step (pieces mpEagain) true 9) (sample, [2, 0, 0])
    [.read (some 2), .readline none, .read none] =
      some (([], []), [.data true [0x61, 0xc3], .none, .data true
        [0xa9, 0xe2, 0x82, 0xac, 0x0a, 0x62]]) := by decide

/-- `readlines` of a stream that blocks: the lines are all of the bytes that were left, none of them
is empty or goes on behind its end, and only the last may have no end. -/
theorem readlines_lines (h : Delivers read rest mpEagain False) (isText : Bool) {fuel : Nat}
    {s : σ} (hfuel : (rest s).length < fuel) :
    ∃ s' ls, readLines read isText fuel fuel s [] = some (s', .lines isText ls) ∧
      rest s' = [] ∧ ls.flatten = rest s ∧ (∀ line ∈ ls, line ≠ [] ∧ 0x0a ∉ line.dropLast) ∧
      ∀ line ∈ ls.dropLast, line.getLast? = some 0x0a := by
  have hlines : ∃ s', readLines read isText fuel fuel s [] =
      some (s', .lines isText ([] ++ linesOf (rest s))) ∧ rest s' = [] :=
    readLines_spec h isText hfuel hfuel
  obtain ⟨s', hlines, hend⟩ := hlines
  obtain ⟨hall, hends⟩ := linesOf_shape (rest s)
  exact ⟨s', _, hlines, hend, flatten_linesOf (rest s), hall, hends⟩

theorem readlines_lines_sample :
    ∃ s' ls, readLines (atMost Nat 1) true 9 9 sample [] = some (s', .lines true ls) ∧
      id s' = [] ∧ ls.flatten = id sample ∧ (∀ line ∈ ls, line ≠ [] ∧ 0x0a ∉ line.dropLast) ∧
      ∀ line ∈ ls.dropLast, line.getLast? = some 0x0a :=
  readlines_lines (atMost_delivers 1 mpEagain) true (by decide)

end Loops

end EfiLvgl.Py.Stream
