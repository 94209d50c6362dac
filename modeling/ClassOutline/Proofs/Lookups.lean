import ClassOutline.Proofs.Nesting

/-!
What a decoder of attributes does with its resolver.

It asks, and nothing else: that is what `Composed` says. So the journal tells all that the
resolver had to do with a run.

It tells what becomes of an answer that is an error: it ends the run. A run that goes on never
stands behind a question with such an answer, and a run that fails behind one fails with that
answer (`Composed.accounted`). It tells as well which answers had a part in a run at all: a run
that comes to its end was given an answer to every question, and all other answers may be
changed and the run is the same (`Composed.exists_trace`).

Both are inductions on how a decoder is put together, with a reader of attributes for which
the same is known.
-/

set_option autoImplicit false

namespace ClassOutline

open Decoder

/-! ## Refused questions -/

namespace Resolver

/-- The newest entry of the journal is a question, and the answer to it is this error. -/
def AnsweredLast (r : Resolver) (c : Cursor) (error : Error) : Prop :=
  ∃ question index older, c.journal = .lookup question index :: older ∧
    r question index = .error error

/-- The newest entry of the journal is a question that has no answer. -/
def Refused (r : Resolver) (c : Cursor) : Prop := ∃ error, r.AnsweredLast c error

theorem AnsweredLast.unique {r : Resolver} {c : Cursor} {error error' : Error}
    (h : r.AnsweredLast c error) (h' : r.AnsweredLast c error') : error = error' := by
  obtain ⟨question, index, older, journal, answer⟩ := h
  obtain ⟨question', index', older', journal', answer'⟩ := h'
  rw [journal] at journal'
  cases journal'
  rw [answer] at answer'
  cases answer'
  rfl

/-- Nothing was asked before the first byte. -/
theorem not_refused_start (r : Resolver) (bytes : List UInt8) :
    ¬ r.Refused (Cursor.start bytes) := by
  rintro ⟨error, question, index, older, journal, answer⟩
  cases journal

/-- A question that is answered goes into the journal. -/
theorem ask_of_ok {r : Resolver} {question : Lookup} {index : UInt16} {text : String}
    (answer : r question index = .ok text) {e : Ending} {c : Cursor} :
    r.ask question index e c
      = .done text { c with journal := .lookup question index :: c.journal } := by
  simp only [ask, bind_apply, Decoder.note, answer, Decoder.ofExcept, pure_apply]

/-- So does one that is refused, and the run ends there. -/
theorem ask_of_error {r : Resolver} {question : Lookup} {index : UInt16} {error : Error}
    (answer : r question index = .error error) {e : Ending} {c : Cursor} :
    r.ask question index e c
      = .failed error { c with journal := .lookup question index :: c.journal } := by
  simp only [ask, bind_apply, Decoder.note, answer, Decoder.ofExcept, Decoder.fail]

end Resolver

/-! ## What becomes of an error -/

/-- What can have become of a run from `c`. If it stands behind a refused question at its end,
it did so from the start. If it failed, it did so with the answer to its last question, or as
the stream ends, or for a reason of its own. -/
def Outcome.Accounted {α : Type} (own : Error → Prop) (r : Resolver) (e : Ending) (c : Cursor) :
    Outcome α → Prop
  | done _ next => r.Refused next → r.Refused c
  | failed error stop => r.AnsweredLast stop error ∨
      (r.Refused stop → r.Refused c) ∧ (error = e.error ∨ own error)

namespace Outcome.Accounted

variable {own own' : Error → Prop} {r : Resolver} {e : Ending} {α β : Type}

theorem mono (sub : ∀ error, own error → own' error) {c : Cursor} {o : Outcome α}
    (h : o.Accounted own r e c) : o.Accounted own' r e c := by
  cases o with
  | done x next => exact h
  | failed error stop =>
      exact h.imp_right fun ⟨back, reason⟩ => ⟨back, reason.imp_right (sub error)⟩

/-- A question is answered, and then there is nothing to complain about, or it ends the run. -/
theorem ask (question : Lookup) (index : UInt16) (c : Cursor) :
    (r.ask question index e c).Accounted own r e c := by
  cases answer : r question index with
  | ok text =>
      rw [Resolver.ask_of_ok answer]
      -- The newest entry is this question, and its answer is no error.
      rintro ⟨error, question', index', older, journal, refused⟩
      cases journal
      rw [answer] at refused
      cases refused
  | error refusal =>
      rw [Resolver.ask_of_error answer]
      exact .inl ⟨question, index, c.journal, rfl, answer⟩

/-- A read leaves the journal alone, whether its bytes are there or not. -/
theorem take (n : Nat) (c : Cursor) : (take n e c).Accounted own r e c := by
  unfold Decoder.take
  dsimp only
  split
  · exact id
  · exact .inr ⟨id, .inl rfl⟩

/-- Behind a report that is no question the newest entry is no question. -/
theorem notes {events : List Event} (reports : ∀ event ∈ events, event.lookup? = none)
    (c : Cursor) : (notes events e c).Accounted own r e c := by
  rintro ⟨error, question, index, older, journal, answer⟩
  change events.reverse ++ c.journal = _ at journal
  cases newest : events.reverse with
  | nil =>
      rw [newest] at journal
      exact ⟨error, question, index, older, journal, answer⟩
  | cons event others =>
      rw [newest] at journal
      cases journal
      have report := reports _ (List.mem_reverse.mp (newest ▸ List.mem_cons_self))
      cases report

/-- Two runs one after the other. What the second stands behind at its end, the first stood behind,
and so it was there from the start. -/
theorem bind {p : Decoder α} {f : α → Decoder β} (first : ∀ c, (p e c).Accounted own r e c)
    (second : ∀ x c, (f x e c).Accounted own r e c) (c : Cursor) :
    ((p >>= f) e c).Accounted own r e c := by
  have part := first c
  rw [bind_apply]
  -- A first part that fails has the last word. Otherwise the second has it.
  cases run : p e c with
  | failed error stop =>
      rw [run] at part
      exact part
  | done x mid =>
      rw [run] at part
      dsimp only
      have rest := second x mid
      cases run' : f x e mid with
      | done y next =>
          rw [run'] at rest
          exact fun refused => part (rest refused)
      | failed error stop =>
          rw [run'] at rest
          rcases rest with answer | ⟨back, reason⟩
          · exact .inl answer
          · exact .inr ⟨fun refused => part (back refused), reason⟩

end Outcome.Accounted

namespace Composed

variable {own : Error → Prop} {α : Type}

/-- A run never goes on behind a refused question. -/
theorem accounted {F : Resolver → Decoder Attribute → Decoder α} (hF : Composed own F)
    {r : Resolver} {e : Ending} {nested : Decoder Attribute}
    (inside : ∀ c, (nested e c).Accounted own r e c) (c : Cursor) :
    (F r nested e c).Accounted own r e c := by
  induction hF generalizing c with
  | pure x => exact id
  | bind _ _ first second => exact .bind first second c
  | take n => exact .take n c
  | notes reports => exact .notes reports c
  | fail reason => exact .inr ⟨id, .inr reason⟩
  | exhausted => exact .inr ⟨id, .inl rfl⟩
  | ask question index => exact .ask question index c
  | nested => exact inside c

/-- If no reader is called there is nothing to know about one. -/
theorem accounted_closed {F : Resolver → Decoder α} (hF : Composed own fun r _ => F r)
    (r : Resolver) (e : Ending) (c : Cursor) : (F r e c).Accounted own r e c := by
  have idle : ∀ c, ((Decoder.exhausted : Decoder Attribute) e c).Accounted own r e c :=
    fun _ => .inr ⟨id, .inl rfl⟩
  exact hF.accounted idle c

end Composed

/-- Attributes account for themselves, as deep as they nest. -/
theorem Attribute.accounted_decode (settings : Settings) (r : Resolver) (e : Ending) (c : Cursor) :
    (decode settings r e c).Accounted (Refusal settings) r e c :=
  (composed_decodeWithin settings c.unread.length).accounted_closed r e c

/-! ## Answers that were not asked for -/

/-- What a run with the answers of `r` has added to the journal, and what that tells. -/
structure Resolver.Trace {α : Type} (F : Resolver → Decoder α) (r : Resolver) (e : Ending)
    (c : Cursor) (added : List Event) : Prop where
  journal : (F r e c).cursor.journal = added ++ c.journal
  /-- a run that came to its end was given all the answers it asked for -/
  answered : ∀ x next, F r e c = .done x next →
    ∀ question index, .lookup question index ∈ added → ∃ text, r question index = .ok text
  /-- no other answer had a part in it -/
  determined : ∀ r', (∀ question index, .lookup question index ∈ added →
    r' question index = r question index) → F r' e c = F r e c

namespace Resolver.Trace

variable {α β : Type} {r : Resolver} {e : Ending} {c : Cursor}

/-- A step that does not ask leaves a trace without questions. -/
theorem const (p : Decoder α) {added : List Event}
    (journal : (p e c).cursor.journal = added ++ c.journal)
    (reports : ∀ event ∈ added, event.lookup? = none) : r.Trace (fun _ => p) e c added := by
  refine ⟨journal, fun _ _ _ question index asked => ?_, fun _ _ => rfl⟩
  have report := reports _ asked
  cases report

/-- A read leaves none. -/
theorem take (n : Nat) : r.Trace (fun _ => take n) e c [] := by
  refine .const _ ?_ fun _ mem => nomatch mem
  unfold Decoder.take
  dsimp only
  split
  · rfl
  · rfl

/-- The question itself is the trace of asking it. -/
theorem ask (question : Lookup) (index : UInt16) :
    r.Trace (fun r => r.ask question index) e c [.lookup question index] := by
  refine ⟨?_, ?_, ?_⟩
  · cases answer : r question index with
    | ok text =>
        rw [ask_of_ok answer]
        rfl
    | error error =>
        rw [ask_of_error answer]
        rfl
  · -- Asking came to its end, so the answer is no error.
    intro x next run question' index' asked
    cases List.mem_singleton.mp asked
    cases answer : r question index with
    | ok text => exact ⟨text, rfl⟩
    | error error =>
        rw [ask_of_error answer] at run
        cases run
  · -- The answer to this one question is all that is used.
    intro r' agree
    rw [Resolver.ask, Resolver.ask, agree question index List.mem_cons_self]

/-- The trace of a sequence is that of its first part, if this fails. -/
theorem bind_of_failed {F : Resolver → Decoder α} {G : α → Resolver → Decoder β}
    {added : List Event} {error : Error} {stop : Cursor} (first : r.Trace F e c added)
    (run : F r e c = .failed error stop) :
    r.Trace (fun r => F r >>= fun x => G x r) e c added := by
  obtain ⟨journal, -, same⟩ := first
  rw [run] at journal same
  refine ⟨?_, ?_, ?_⟩
  · rw [bind_apply, run]
    exact journal
  · intro y next whole
    rw [bind_apply, run] at whole
    cases whole
  · intro r' agree
    rw [bind_apply, bind_apply, run, same r' agree]

/-- Otherwise the second part adds its own, and goes on where the first stopped. -/
theorem bind_of_done {F : Resolver → Decoder α} {G : α → Resolver → Decoder β}
    {added later : List Event} {x : α} {mid : Cursor} (first : r.Trace F e c added)
    (run : F r e c = .done x mid) (second : r.Trace (G x) e mid later) :
    r.Trace (fun r => F r >>= fun x => G x r) e c (later ++ added) := by
  obtain ⟨journal, answered, same⟩ := first
  obtain ⟨journal', answered', same'⟩ := second
  have whole : ∀ r', F r' e c = .done x mid →
      (F r' >>= fun x => G x r') e c = G x r' e mid := by
    intro r' run'
    rw [bind_apply, run']
  -- Once the first part is known to come to `x`, the whole run is the second part.
  rw [run] at journal same
  refine ⟨?_, ?_, ?_⟩
  · rw [whole r run, journal', List.append_assoc]
    exact congrArg _ journal
  · intro y next done question index asked
    rw [whole r run] at done
    rcases List.mem_append.mp asked with asked | asked
    · exact answered' y next done question index asked
    · exact answered x mid run question index asked
  · intro r' agree
    have firstAgree := same r' fun question index asked =>
      agree question index (List.mem_append_right _ asked)
    have secondAgree := same' r' fun question index asked =>
      agree question index (List.mem_append_left _ asked)
    rw [whole r run, whole r' firstAgree, secondAgree]

end Resolver.Trace

namespace Composed

variable {own : Error → Prop} {α : Type}

/-- Every run leaves a trace. -/
theorem exists_trace {F : Resolver → Decoder Attribute → Decoder α} (hF : Composed own F)
    {N : Resolver → Decoder Attribute} {r : Resolver} {e : Ending}
    (inside : ∀ c, ∃ added, r.Trace N e c added) (c : Cursor) :
    ∃ added, r.Trace (fun r => F r (N r)) e c added := by
  -- By the way the decoder is put together; the trace of a sequence depends on how far it comes.
  induction hF generalizing c with
  | pure x | fail _ | exhausted => exact ⟨[], .const _ rfl fun _ mem => nomatch mem⟩
  | @notes events reports =>
      exact ⟨events.reverse, .const _ rfl fun event mem => reports event (List.mem_reverse.mp mem)⟩
  | take n => exact ⟨[], .take n⟩
  | ask question index => exact ⟨_, .ask question index⟩
  | nested => exact inside c
  | @bind α β F G _ _ first second =>
      obtain ⟨added, front⟩ := first c
      cases run : F r (N r) e c with
      | failed error stop => exact ⟨added, front.bind_of_failed run⟩
      | done x mid =>
          obtain ⟨later, back⟩ := second x mid
          exact ⟨later ++ added, front.bind_of_done run back⟩

/-- Nothing has to be known of a reader that is not called. -/
theorem exists_trace_closed {F : Resolver → Decoder α} (hF : Composed own fun r _ => F r)
    (r : Resolver) (e : Ending) (c : Cursor) : ∃ added, r.Trace F e c added := by
  have idle : ∀ c, ∃ added, r.Trace (fun _ => (Decoder.exhausted : Decoder Attribute)) e c added :=
    fun _ => ⟨[], .const _ rfl fun _ mem => nomatch mem⟩
  exact hF.exists_trace idle c

end Composed

end ClassOutline
