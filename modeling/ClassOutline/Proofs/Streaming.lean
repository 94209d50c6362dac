import ClassOutline.Proofs.Nesting

/-!
Decoding is streaming: a verdict reached on a prefix never changes.

A run can do two things with the bytes it is given. It is *settled* if it comes to
its end without asking for more: then it does the same, with the same value or
error, on every longer stream, however that stream ends, and what was added is left
unread. It is *starved* if it asks for a byte that is not there: then the stream's
own ending is the error. There is nothing in between (`Streams`), and nothing else
is used below.

The dichotomy is proved of the primitive reads and carried through sequencing by
one induction; the decoders of attributes are reached through `Regular`. The three
things a caller who feeds a stream piece by piece wants to know are collected in
`KeepsVerdicts`.
-/

set_option autoImplicit false

namespace ClassOutline

/-! ## More bytes behind a run -/

/-- A cursor with bytes added behind the unread ones, and with an older journal. -/
def Cursor.extend (c : Cursor) (rest : List UInt8) (older : List Event) : Cursor :=
  ⟨c.unread ++ rest, c.journal ++ older⟩

@[simp] theorem Cursor.extend_nil (c : Cursor) : c.extend [] [] = c := by
  simp [Cursor.extend]

/-- The same outcome at the extended cursor. -/
def Outcome.extend {α : Type} (rest : List UInt8) (older : List Event) : Outcome α → Outcome α
  | done value next => done value (next.extend rest older)
  | failed error stop => failed error (stop.extend rest older)

@[simp] theorem Outcome.extend_nil {α : Type} (o : Outcome α) : o.extend [] [] = o := by
  cases o <;> simp [Outcome.extend]

namespace Decoder

variable {α β : Type}

/-- The run from `c` needs no byte that is not there: any longer stream gives the
same outcome, with the bytes that were added still unread. -/
def Settled (p : Decoder α) (c : Cursor) : Prop :=
  ∀ e rest older, p e (c.extend rest older) = (p .endOfFile c).extend rest older

/-- The run from `c` runs out of bytes, and ends as the stream does. -/
def Starved (p : Decoder α) (c : Cursor) : Prop :=
  ∃ stop, ∀ e, p e c = .failed e.error stop

/-- Every run is settled or starved. -/
def Streams (p : Decoder α) : Prop :=
  ∀ c, Settled p c ∨ Starved p c

/-- A settled run does not see how the stream ends. -/
theorem Settled.eq_endOfFile {p : Decoder α} {c : Cursor} (h : Settled p c) (e : Ending) :
    p e c = p .endOfFile c := by
  have h0 := h e [] []
  rwa [Cursor.extend_nil, Outcome.extend_nil] at h0

/-! ## Sequencing -/

theorem Streams.pure (x : α) : Streams (pure x : Decoder α) :=
  fun _ => .inl fun _ _ _ => rfl

theorem Streams.fail (error : Error) : Streams (fail error : Decoder α) :=
  fun _ => .inl fun _ _ _ => rfl

theorem Streams.exhausted : Streams (exhausted : Decoder α) :=
  fun c => .inr ⟨c, fun _ => rfl⟩

theorem Streams.notes (events : List Event) : Streams (notes events) := by
  intro c
  left
  intro e rest older
  simp only [Decoder.notes, Cursor.extend, Outcome.extend, List.append_assoc]

theorem take_of_le {n : Nat} {c : Cursor} (room : n ≤ c.unread.length) (e : Ending) :
    take n e c = .done (c.unread.take n) ⟨c.unread.drop n, c.journal⟩ := by
  unfold Decoder.take
  dsimp only
  rw [if_pos]
  rw [List.length_take]
  omega

/-- A read is settled if its bytes are there, and starved otherwise. -/
theorem Streams.take (n : Nat) : Streams (take n) := by
  intro c
  by_cases room : n ≤ c.unread.length
  · left
    intro e rest older
    have longer : n ≤ (c.extend rest older).unread.length := by
      rw [Cursor.extend, List.length_append]
      omega
    -- What was added stays behind what is left.
    rw [take_of_le room, take_of_le longer]
    simp only [Cursor.extend, Outcome.extend]
    rw [List.take_append_of_le_length room, List.drop_append_of_le_length room]
  · right
    exact ⟨c, fun e => take_of_short (by omega) e⟩

/-- Two runs one after the other are settled or starved, if each is. -/
theorem Streams.bind {p : Decoder α} {f : α → Decoder β} (hp : Streams p)
    (hf : ∀ x, Streams (f x)) : Streams (p >>= f) := by
  intro c
  -- The first part decides, unless it is settled with a value: then the second does.
  rcases hp c with first | ⟨stop, first⟩
  · cases hc : p .endOfFile c with
    | failed error stop =>
        left
        intro e rest older
        rw [bind_apply, bind_apply, first, hc]
        rfl
    | done x mid =>
        rcases hf x mid with second | ⟨stop, second⟩
        · left
          intro e rest older
          rw [bind_apply, bind_apply, first, hc]
          exact second e rest older
        · right
          refine ⟨stop, fun e => ?_⟩
          rw [bind_apply, first.eq_endOfFile, hc]
          exact second e
  · right
    exact ⟨stop, fun e => by rw [bind_apply, first e]⟩

/-- So every run of steps that are known beforehand is one or the other. -/
theorem Sequential.streams {p : Decoder α} (h : Sequential p) : Streams p := by
  induction h with
  | pure x => exact .pure x
  | bind _ _ hp hf => exact .bind hp hf
  | take n => exact .take n
  | notes events => exact .notes events
  | fail error => exact .fail error
  | exhausted => exact .exhausted

/-- Whether a run is settled is decided by its own bytes and those added to it, so
agreement up to that length is enough. -/
theorem Regular.streams {p : Decoder α} (h : Regular p) : Streams p := by
  intro c
  by_cases starved : Starved p c
  · exact .inr starved
  left
  intro e rest older
  obtain ⟨q, hq, agree⟩ := h (c.extend rest older).unread.length
  have room : c.unread.length ≤ (c.extend rest older).unread.length := by
    rw [Cursor.extend, List.length_append]
    omega
  rcases hq.streams c with settled | ⟨stop, run⟩
  · rw [← agree e _ (Nat.le_refl _), ← agree .endOfFile c room]
    exact settled e rest older
  · -- If `q` were starved here, so would `p` be.
    exact absurd ⟨stop, fun e => (agree e c room).symm.trans (run e)⟩ starved

/-! ## Verdicts -/

/-- What a decoder makes of a byte string that ends in a plain end of file: a value
and the bytes left unread, or an error. -/
def verdict (p : Decoder α) (bytes : List UInt8) : Except Error (α × List UInt8) :=
  match p .endOfFile (Cursor.start bytes) with
  | .done value next => .ok (value, next.unread)
  | .failed error _ => .error error

/-- A verdict that is reached stays, whatever follows. -/
structure KeepsVerdicts (p : Decoder α) : Prop where
  /-- what is accepted is accepted in front of any bytes, which stay unread -/
  accepted : ∀ bytes rest value unread, p.verdict bytes = .ok (value, unread) →
    p.verdict (bytes ++ rest) = .ok (value, unread ++ rest)
  /-- what is refused for another reason than its length is refused for that reason -/
  refused : ∀ bytes rest error, p.verdict bytes = .error error → error ≠ .truncated →
    p.verdict (bytes ++ rest) = .error error
  /-- what is accepted to the last byte is truncated anywhere before -/
  tight : ∀ bytes value, p.verdict bytes = .ok (value, []) →
    ∀ front, front <+: bytes → front ≠ bytes → p.verdict front = .error .truncated

/-- A settled run gives its verdict in front of any bytes. -/
theorem Settled.verdict_append {p : Decoder α} {bytes : List UInt8}
    (h : Settled p (Cursor.start bytes)) (rest : List UInt8) :
    p.verdict (bytes ++ rest) = (p.verdict bytes).map fun (value, unread) =>
      (value, unread ++ rest) := by
  have run : p .endOfFile (Cursor.start (bytes ++ rest))
      = (p .endOfFile (Cursor.start bytes)).extend rest [] := h .endOfFile rest []
  rw [verdict, verdict, run]
  cases p .endOfFile (Cursor.start bytes) <;> rfl

/-- A starved run is truncated at a plain end of file. -/
theorem Starved.verdict_eq {p : Decoder α} {bytes : List UInt8}
    (h : Starved p (Cursor.start bytes)) : p.verdict bytes = .error .truncated := by
  obtain ⟨stop, run⟩ := h
  rw [verdict, run]
  rfl

/-- A settled run keeps its verdict, and a starved one has none but truncation. -/
theorem Streams.keepsVerdicts {p : Decoder α} (h : Streams p) : KeepsVerdicts p := by
  have accepted : ∀ bytes rest value unread, p.verdict bytes = .ok (value, unread) →
      p.verdict (bytes ++ rest) = .ok (value, unread ++ rest) := by
    intro bytes rest value unread ok
    rcases h (Cursor.start bytes) with settled | starved
    · rw [settled.verdict_append, ok]
      rfl
    · rw [starved.verdict_eq] at ok
      cases ok
  have refused : ∀ bytes rest error, p.verdict bytes = .error error → error ≠ .truncated →
      p.verdict (bytes ++ rest) = .error error := by
    intro bytes rest error bad other
    rcases h (Cursor.start bytes) with settled | starved
    · rw [settled.verdict_append, bad]
      rfl
    · rw [starved.verdict_eq] at bad
      cases bad
      exact absurd rfl other
  refine ⟨accepted, refused, ?_⟩
  rintro bytes value ok front ⟨rest, rfl⟩ short
  -- Any other verdict on the front would be the verdict on the whole.
  cases hv : p.verdict front with
  | ok result =>
      obtain ⟨value', unread⟩ := result
      have whole := accepted front rest value' unread hv
      rw [whole, Except.ok.injEq, Prod.mk.injEq, List.append_eq_nil_iff] at ok
      rw [ok.2.2, List.append_nil] at short
      exact absurd rfl short
  | error error =>
      by_cases other : error = .truncated
      · rw [other]
      · rw [refused front rest error hv other] at ok
        cases ok

end Decoder

/-! ## The decoders of the library -/

open Decoder

/-- **Decoding is streaming.** Classes, attributes, lists of attributes, method bodies
and constant pools, read with any settings and any answers to lookups, keep every
verdict that they have reached. -/
theorem decoders_keepVerdicts (settings : Settings) (r : Resolver) :
    KeepsVerdicts (Class.decode settings) ∧
    KeepsVerdicts (Attribute.decode settings r) ∧
    KeepsVerdicts (Attribute.decodeList settings r) ∧
    KeepsVerdicts (Code.decode settings r) ∧
    KeepsVerdicts Pool.decode := by
  -- Only a pool is read without a bound on the depth.
  refine ⟨?_, ?_, ?_, ?_, ?_⟩
  · exact (Class.regular_decode settings).streams.keepsVerdicts
  · exact (Attribute.regular_decode settings r).streams.keepsVerdicts
  · exact (Attribute.regular_decodeList settings r).streams.keepsVerdicts
  · exact (Code.regular_decode settings r).streams.keepsVerdicts
  · exact Pool.composed_decode.sequential_const.streams.keepsVerdicts

/-- The pool of one class: accepted, so truncated one byte earlier and accepted with a
byte more; and with an unknown tag in its place, refused whatever follows. -/
theorem decoders_keepVerdicts_pool :
    Pool.decode.verdict [0, 2, 7, 0, 5] = .ok (⟨#[none, some (.classRef 5)]⟩, []) ∧
    Pool.decode.verdict [0, 2, 7, 0] = .error .truncated ∧
    Pool.decode.verdict [0, 2, 7, 0, 5, 9] = .ok (⟨#[none, some (.classRef 5)]⟩, [9]) ∧
    Pool.decode.verdict [0, 2, 2, 0, 5] = .error (.unknownTag 2) := by
  obtain ⟨-, -, -, -, keeps⟩ := decoders_keepVerdicts {} Pool.empty.resolver
  have whole : Pool.decode.verdict [0, 2, 7, 0, 5]
      = .ok (⟨#[none, some (.classRef 5)]⟩, []) := rfl
  have bad : Pool.decode.verdict [0, 2, 2] = .error (.unknownTag 2) := rfl
  refine ⟨whole, ?_, ?_, ?_⟩
  · exact keeps.tight _ _ whole _ ⟨[5], rfl⟩ (by decide)
  · exact keeps.accepted _ [9] _ _ whole
  · exact keeps.refused _ [0, 5] _ bad (by decide)

end ClassOutline
