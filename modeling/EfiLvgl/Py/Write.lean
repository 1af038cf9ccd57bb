import EfiLvgl.Py.Stream

/-!
# EfiLvgl.Py.Write — writing to a stream

`write` and `write1` of `stream.c`. The stream takes as many of the bytes that are handed to it as
it likes, and may answer an error at any time. `write_run`: the answers of a script's calls tell
what the stream has taken, but for `OSError`, behind which the number of bytes is lost.
-/

namespace EfiLvgl.Py.Stream

open EfiLvgl.Source EfiLvgl.Run

universe u

/-- What `write` answers: `None`, a number of bytes, or `OSError`. -/
inductive Written where
  | none
  | size (n : Nat)
  | osError (errcode : Nat)
deriving DecidableEq, Repr

variable {σ : Type u} (write : σ → List UInt8 → σ × Except Nat Nat)

/-- `mp_stream_rw` for writing, with the number of bytes written so far: that number and `*errcode`.
Each round writes a byte at least, so that the length of the buffer is fuel enough. -/
def writeLoop (once : Bool) : Nat → σ → List UInt8 → Nat → σ × Nat × Nat
  | 0, s, _, done => (s, done, 0)
  | fuel + 1, s, buf, done =>
      if buf.length = 0 then (s, done, 0)
      else
        match write s buf with
        | (s, .error errcode) =>
            (s, done, if isNonblockingError errcode ∧ done ≠ 0 then 0 else errcode)
        | (s, .ok outSz) =>
            -- it is not said what 0 means here
            if outSz = 0 then (s, done, 0)
            else if once then (s, outSz, 0)
            else writeLoop once fuel s (buf.drop outSz) (done + outSz)

/-- `mp_stream_write` -/
def mpStreamWrite (once : Bool) (s : σ) (buf : List UInt8) : σ × Written :=
  match writeLoop write once buf.length s buf 0 with
  | (s, outSz, error) =>
      if error ≠ 0 then (s, if isNonblockingError error then .none else .osError error)
      else (s, .size outSz)

/-- What is asked of a stream: to write a buffer, with `max_len`, or with `off` and `max_len`, both
as a `size_t`; or to try it once. -/
inductive WriteOp where
  | write (buf : List UInt8)
  | writeMax (buf : List UInt8) (maxLen : Nat)
  | writeSlice (buf : List UInt8) (off maxLen : Nat)
  | write1 (buf : List UInt8)

/-- The bytes that are to be written. -/
def WriteOp.slice : WriteOp → List UInt8
  | .write buf => buf
  | .writeMax buf maxLen => buf.take (min buf.length maxLen)
  | .writeSlice buf off maxLen =>
      -- an offset behind the end is one at the end
      let off := if buf.length < off then buf.length else off
      (buf.drop off).take (min (buf.length - off) maxLen)
  | .write1 buf => buf

/-- Only `write1` tries once. -/
def WriteOp.once : WriteOp → Bool
  | .write1 _ => true
  | _ => false

/-- `stream_write_method` and `stream_write1_method` -/
def writeStep : Step σ WriteOp Written
  | s, op =>
      let r := mpStreamWrite write op.once s op.slice
      some (r.1, [r.2])

/-! ## What a call has written -/

variable {write} {got : σ → List UInt8} {refuses : Prop}

/-- The first `k` bytes are written behind the `done` ones, all of them unless the stream refuses
some or only one try is made. An error that says that the stream is not ready is not answered if
any bytes were written before it. -/
def Wrote (got : σ → List UInt8) (refuses : Prop) (once : Bool) (s : σ) (buf : List UInt8)
    (done : Nat) (r : σ × Nat × Nat) : Prop :=
  ∃ k, r.2.1 = done + k ∧ k ≤ buf.length ∧ got r.1 = got s ++ buf.take k ∧
    (r.2.2 ≠ 0 → refuses) ∧ (isNonblockingError r.2.2 = true → done = 0 ∧ k = 0) ∧
    (k = buf.length ∨ refuses ∨ once = true)

theorem Wrote.nothing {once : Bool} {s s' : σ} {buf : List UInt8} {done : Nat}
    (hsame : got s' = got s) (hor : buf = [] ∨ refuses) :
    Wrote got refuses once s buf done (s', done, 0) := by
  refine ⟨0, rfl, Nat.zero_le _, ?_, fun hne => absurd rfl hne, ?_, ?_⟩
  · rw [hsame, List.take_zero, List.append_nil]
  · intro hfalse
    cases hfalse
  · rcases hor with hempty | hrefuses
    · rw [hempty]
      exact .inl rfl
    · exact .inr (.inl hrefuses)

theorem writeLoop_spec (h : Accepts write got refuses) (once : Bool) {fuel : Nat} {s : σ}
    {buf : List UInt8} {done : Nat} (hfuel : buf.length ≤ fuel) (hdone : once = true → done = 0) :
    Wrote got refuses once s buf done (writeLoop write once fuel s buf done) := by
  induction fuel generalizing s buf done with
  | zero => exact .nothing rfl (.inl (List.eq_nil_of_length_eq_zero (Nat.le_zero.mp hfuel)))
  | succ fuel ih =>
      rw [writeLoop]
      by_cases hzero : buf.length = 0
      · rw [if_pos hzero]
        exact .nothing rfl (.inl (List.eq_nil_of_length_eq_zero hzero))
      · rw [if_neg hzero]
        cases hwrite : write s buf with
        | mk s₁ answer =>
          cases answer with
          | error errcode =>
              obtain ⟨hsame, hrefuses⟩ := h.error hwrite
              refine ⟨0, rfl, Nat.zero_le _, ?_, fun _ => hrefuses, ?_, .inr (.inl hrefuses)⟩
              · rw [hsame, List.take_zero, List.append_nil]
              · intro hagain
                by_cases hnone : done = 0
                · exact ⟨hnone, rfl⟩
                · -- what was written before the error is answered instead
                  by_cases hnb : isNonblockingError errcode = true
                  · simp only [if_pos (And.intro hnb hnone)] at hagain
                    cases hagain
                  · simp only [if_neg fun hand : _ ∧ done ≠ 0 => hnb hand.1] at hagain
                    exact absurd hagain hnb
          | ok n =>
              obtain ⟨hle, hgot, hend⟩ := h.count hwrite
              by_cases hn : n = 0
              · simp only [if_pos hn]
                apply Wrote.nothing
                · rw [hgot, hn, List.take_zero, List.append_nil]
                · exact hend hn
              · simp only [if_neg hn]
                cases once with
                | true =>
                    rw [if_pos rfl, hdone rfl]
                    refine ⟨n, (Nat.zero_add n).symm, hle, hgot, fun hne => absurd rfl hne, ?_,
                      .inr (.inr rfl)⟩
                    intro hfalse
                    cases hfalse
                | false =>
                    -- what is left is shorter, so the fuel is enough for it
                    rw [if_neg Bool.false_ne_true]
                    have hless : (buf.drop n).length ≤ fuel := by
                      rw [List.length_drop]
                      omega
                    have hlater : Wrote got refuses false s₁ (buf.drop n) (done + n)
                        (writeLoop write false fuel s₁ (buf.drop n) (done + n)) := by
                      apply ih hless
                      intro hfalse
                      cases hfalse
                    obtain ⟨k, hsize, hk, hgot', hrefuses, hagain, hall⟩ := hlater
                    rw [List.length_drop] at hk hall
                    refine ⟨n + k, ?_, by omega, ?_, hrefuses, ?_, ?_⟩
                    · rw [hsize, Nat.add_assoc]
                    · rw [hgot', hgot, List.append_assoc, List.take_add]
                    · -- bytes were written already, so a stream that is not ready is no error
                      intro hnb
                      have hnothing := (hagain hnb).1
                      omega
                    · refine hall.imp_left ?_
                      intro heq
                      omega

/-- A step of the list of the bytes that the stream has taken. -/
inductive WriteNext (refuses : Prop) (l : List UInt8) (op : WriteOp) :
    List Written → List UInt8 → Prop where
  | none : refuses → WriteNext refuses l op [.none] l
  | size {n : Nat} : n ≤ op.slice.length → (n = op.slice.length ∨ refuses ∨ op.once = true) →
      WriteNext refuses l op [.size n] (l ++ op.slice.take n)
  | osError {k errcode : Nat} : refuses → isNonblockingError errcode = false →
      k ≤ op.slice.length → WriteNext refuses l op [.osError errcode] (l ++ op.slice.take k)

theorem writeStep_next (h : Accepts write got refuses) (s : σ) (op : WriteOp) :
    ∃ s' answers, writeStep write s op = some (s', answers) ∧
      WriteNext refuses (got s) op answers (got s') := by
  have hwrote : Wrote got refuses op.once s op.slice 0
      (writeLoop write op.once op.slice.length s op.slice 0) :=
    writeLoop_spec h op.once (Nat.le_refl _) fun _ => rfl
  cases hloop : writeLoop write op.once op.slice.length s op.slice 0 with
  | mk s' outcome =>
    rcases outcome with ⟨outSz, error⟩
    rw [hloop] at hwrote
    obtain ⟨k, hsize, hk, hgot, hrefuses, hagain, hall⟩ := hwrote
    simp only [Nat.zero_add] at hsize hgot hrefuses hagain
    subst hsize
    simp only [writeStep, mpStreamWrite, hloop]
    -- the answer is a number, None or an error, and in each case what was taken is known
    by_cases hne : error = 0
    · rw [if_neg (not_not.mpr hne)]
      refine ⟨s', _, rfl, ?_⟩
      rw [hgot]
      exact .size hk hall
    · rw [if_pos hne]
      refine ⟨s', _, rfl, ?_⟩
      by_cases hnb : isNonblockingError error = true
      · rw [if_pos hnb, hgot, (hagain hnb).2, List.take_zero, List.append_nil]
        exact .none (hrefuses hne)
      · rw [if_neg hnb, hgot]
        exact .osError (hrefuses hne) ((Bool.not_eq_true _).mp hnb) hk

/-- Whatever is written to a stream, in whatever order, and however many bytes the stream takes at
once: `None` is answered if it has taken none of the bytes that were to be written, and a number if
it has taken that many of them from the first on, behind all that it has taken before. These are
all of them if the stream refuses none and is not tried just once. `OSError` is never for a stream
that is not ready. -/
theorem write_run (h : Accepts write got refuses) (ops : List WriteOp) (s : σ) :
    ∃ s' answers, run (writeStep write) s ops = some (s', answers) ∧
      Trace (WriteNext refuses) (got s) ops answers (got s') := by
  induction ops generalizing s with
  | nil => exact ⟨s, [], rfl, .nil _⟩
  | cons op ops ih =>
      obtain ⟨s₁, answers₁, hstep, hnext⟩ := writeStep_next h s op
      obtain ⟨s', answers, hrun, htrace⟩ := ih s₁
      refine ⟨s', answers₁ ++ answers, ?_, .cons hnext htrace⟩
      simp only [run, hstep, hrun]

/-- A stream that takes two bytes, is not ready, and fails. -/
theorem write_run_sample :
    ∃ s' answers, run (writeStep (takes mpEagain)) ([], [2, 0, 3])
        [.writeSlice sample 1 5, .write sample] = some (s', answers) ∧
      Trace (WriteNext True) [] [.writeSlice sample 1 5, .write sample] answers s'.1 :=
  write_run (takes_accepts mpEagain) _ _

end EfiLvgl.Py.Stream
