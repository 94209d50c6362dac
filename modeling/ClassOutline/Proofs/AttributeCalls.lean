import ClassOutline.Proofs.ExactRead
import Mathlib.Tactic.ByContra

/-!
Where a decoder reads attributes.

Every decoder that reads attributes has a reader of attributes in it, and is a function `F`
of that reader. Which attributes a run reads is a question about `F`, and it can be asked
without a journal: the reader is called at a cursor if a reader that fails at this cursor,
and does as before at every other, makes the whole run fail there (`Calls`).

For this to be of use `F` must treat its reader as a black box, which is what `Context` says:
`F` is put together by sequencing from calls of the reader and from decoders that do not know
of it. Then a reader that fails at a cursor either is called there or makes no
difference (`Context.calls_or_ignores`), the calls of a sequence are the calls of its parts
(`Context.calls_bind_iff`), and calls are made in the order of the stream
(`Context.calls_le`, `Context.done_of_calls`).

The last section is what this is for. Two readers that agree except on certain calls, on
which one of them fails, are indistinguishable up to the first such call
(`Context.agree_until`).
-/

set_option autoImplicit false

namespace ClassOutline

open Decoder

namespace Decoder

variable {α β : Type} {p : Decoder α} {f : α → Decoder β} {e : Ending} {c : Cursor}

/-- A sequence fails as its first part does. -/
theorem bind_of_failed {error : Error} {stop : Cursor} (run : p e c = .failed error stop) :
    (p >>= f) e c = .failed error stop := by
  rw [bind_apply, run]

/-- It goes on with the second part from where the first has stopped. -/
theorem bind_of_done {x : α} {next : Cursor} (run : p e c = .done x next) :
    (p >>= f) e c = f x e next := by
  rw [bind_apply, run]

end Decoder

/-! ## Calls -/

namespace AttributeReader

/-- A reader that fails at one cursor, and does as before at every other. The error may say
which resolver the reader was given. -/
def failingAt (reader : AttributeReader) (stop : Cursor) (error : Resolver → Error) :
    AttributeReader :=
  fun r e c => if c = stop then .failed (error r) stop else reader r e c

/-- Every attribute takes up bytes. -/
def Advances (reader : AttributeReader) : Prop := ∀ r, Decoder.Advances 1 (reader r)

theorem Advances.forward {reader : AttributeReader} (h : reader.Advances) (r : Resolver) :
    Forward (reader r) :=
  (h r).mono (Nat.zero_le 1)

variable {reader : AttributeReader} {stop c : Cursor} {error : Resolver → Error} {r : Resolver}
  {e : Ending}

theorem failingAt_self : reader.failingAt stop error r e stop = .failed (error r) stop :=
  if_pos rfl

theorem failingAt_of_ne (elsewhere : c ≠ stop) : reader.failingAt stop error r e c = reader r e c :=
  if_neg elsewhere

end AttributeReader

/-- In a run from `c` the reader is called at `stop` with the resolver `r`: if it failed
there, so would the run. -/
def Calls {α : Type} (F : AttributeReader → Decoder α) (reader : AttributeReader) (e : Ending)
    (c : Cursor) (r : Resolver) (stop : Cursor) : Prop :=
  ∀ error : Resolver → Error, F (reader.failingAt stop error) e c = .failed (error r) stop

section Calls

variable {α β : Type} {F : AttributeReader → Decoder α} {G : α → AttributeReader → Decoder β}
  {reader : AttributeReader} {e : Ending} {c stop : Cursor} {r r' : Resolver}

/-- A run that does not depend on how the reader fails does not call it. -/
theorem not_calls_of_forall_eq {o : Outcome α}
    (h : ∀ error, F (reader.failingAt stop error) e c = o) : ¬ Calls F reader e c r stop := by
  intro calls
  have one := (h fun _ => .truncated).symm.trans (calls fun _ => .truncated)
  have two := (h fun _ => .badMagic 0).symm.trans (calls fun _ => .badMagic 0)
  rw [one] at two
  cases two

/-- A decoder that hands its reader one resolver calls it with no other. -/
theorem Calls.resolver_eq {H : Decoder Attribute → Decoder α}
    (calls : Calls (fun reader => H (reader r)) reader e c r' stop) : r' = r := by
  classical
  by_contra other
  -- Two ways to fail that differ on `r'` only look the same to the decoder.
  let mark : Resolver → Error := fun x => if x = r then .truncated else .badMagic 0
  have plain : H ((reader.failingAt stop fun _ => .truncated) r) e c = .failed .truncated stop :=
    calls fun _ => .truncated
  have marked : H ((reader.failingAt stop mark) r) e c = .failed (mark r') stop := calls mark
  have same : (reader.failingAt stop mark) r = (reader.failingAt stop fun _ => .truncated) r := by
    funext e c
    simp only [AttributeReader.failingAt, mark, if_true]
  have differ : mark r' = .badMagic 0 := if_neg other
  rw [same, plain, differ] at marked
  cases marked

namespace Context

/-- The reader is called at a cursor, or what it does there makes no difference. -/
theorem calls_or_ignores (hF : Context F) (reader : AttributeReader) (e : Ending)
    (c stop : Cursor) :
    (∃ r, Calls F reader e c r stop) ∨
      ∀ error, F (reader.failingAt stop error) e c = F reader e c := by
  -- By how `F` is put together. A call in the first part hides what the second would do.
  induction hF generalizing c with
  | const _ => exact .inr fun _ => rfl
  | call r =>
      by_cases here : c = stop
      · rw [here]
        exact .inl ⟨r, fun _ => AttributeReader.failingAt_self⟩
      · exact .inr fun _ => AttributeReader.failingAt_of_ne here
  | @bind α β F G _ _ first second =>
      rcases first c with ⟨r, calls⟩ | ignores
      · exact .inl ⟨r, fun error => bind_of_failed (calls error)⟩
      · cases run : F reader e c with
        | failed error stop' =>
            right
            intro error'
            have same := (ignores error').trans run
            exact (bind_of_failed same).trans (bind_of_failed run).symm
        | done x next =>
            have same := fun error => (ignores error).trans run
            rcases second x next with ⟨r, calls⟩ | ignores'
            · exact .inl ⟨r, fun error => (bind_of_done (same error)).trans (calls error)⟩
            · right
              intro error
              have whole := bind_of_done (f := fun x => G x reader) run
              exact (bind_of_done (same error)).trans ((ignores' error).trans whole.symm)

/-- A decoder that knows of no reader calls none. -/
theorem not_calls_const {p : Decoder α} : ¬ Calls (fun _ => p) reader e c r stop :=
  not_calls_of_forall_eq fun _ => rfl

/-- A call is a call of the reader at the cursor where it starts, and of no other. -/
theorem calls_call_iff : Calls (fun reader => reader r) reader e c r' stop ↔ r' = r ∧ stop = c := by
  constructor
  · intro calls
    refine ⟨calls.resolver_eq (H := fun p => p), ?_⟩
    by_contra elsewhere
    exact not_calls_of_forall_eq
      (fun _ => AttributeReader.failingAt_of_ne (Ne.symm elsewhere)) calls
  · rintro ⟨rfl, rfl⟩
    exact fun _ => AttributeReader.failingAt_self

/-- A call in a sequence is made by its first part, or by the second part after it. -/
theorem calls_of_calls_bind (hF : Context F)
    (calls : Calls (fun reader => F reader >>= fun x => G x reader) reader e c r stop) :
    Calls F reader e c r stop ∨
      ∃ x next, F reader e c = .done x next ∧ Calls (G x) reader e next r stop := by
  -- Either the first part calls the reader at `stop` and fails there, or it is blind to what
  -- happens at `stop` and the call is made by the second part.
  rcases hF.calls_or_ignores reader e c stop with ⟨r', first⟩ | ignores
  · left
    intro error
    have whole := (bind_of_failed (first error)).symm.trans (calls error)
    rw [← (Outcome.failed.inj whole).1]
    exact first error
  · right
    cases run : F reader e c with
    | failed error stop' =>
        -- The sequence ends with the first part, however the reader fails at `stop`.
        have constant := fun error =>
          bind_of_failed (f := fun x => G x (reader.failingAt stop error))
            ((ignores error).trans run)
        exact absurd calls (not_calls_of_forall_eq constant)
    | done x next =>
        refine ⟨x, next, rfl, fun error => ?_⟩
        have second := bind_of_done (f := fun x => G x (reader.failingAt stop error))
          ((ignores error).trans run)
        exact second.symm.trans (calls error)

/-! ## Calls are made in the order of the stream -/

/-- No call is made in front of the run. -/
theorem calls_le (hF : Context F) (advances : reader.Advances)
    (calls : Calls F reader e c r stop) : stop.unread.length ≤ c.unread.length := by
  induction hF generalizing c with
  | const _ => exact absurd calls not_calls_const
  | call r =>
      obtain ⟨rfl, rfl⟩ := calls_call_iff.mp calls
      exact Nat.le_refl _
  | bind hF _ first second =>
      rcases hF.calls_of_calls_bind calls with calls | ⟨x, next, run, calls⟩
      · exact first calls
      · have := second x calls
        have := hF.forward advances.forward e c x next run
        omega

/-- In a run that comes to an end every call came to an end, and not behind that of the
run. -/
theorem done_of_calls (hF : Context F) (advances : reader.Advances)
    (calls : Calls F reader e c r stop) {y : α} {last : Cursor}
    (run : F reader e c = .done y last) :
    ∃ x next, reader r e stop = .done x next ∧ last.unread.length ≤ next.unread.length := by
  induction hF generalizing c last with
  | const _ => exact absurd calls not_calls_const
  | call r =>
      obtain ⟨rfl, rfl⟩ := calls_call_iff.mp calls
      exact ⟨y, last, run, Nat.le_refl _⟩
  | @bind α β F G hF hG first second =>
      obtain ⟨x, mid, part, rest⟩ := bind_eq_done (f := fun x => G x reader) run
      rcases hF.calls_of_calls_bind calls with calls | ⟨x', mid', part', calls⟩
      · -- The second part only goes forward from where the first has stopped.
        obtain ⟨a, next, done, before⟩ := first calls part
        have := (hG x).forward advances.forward e mid y last rest
        exact ⟨a, next, done, by omega⟩
      · cases part.symm.trans part'
        exact second x calls rest

/-- A sequence calls the reader where its first part does, and where its second part does
after it. -/
theorem calls_bind_iff (hF : Context F) (hG : ∀ x, Context (G x)) (advances : reader.Advances) :
    Calls (fun reader => F reader >>= fun x => G x reader) reader e c r stop ↔
      Calls F reader e c r stop ∨
      ∃ x next, F reader e c = .done x next ∧ Calls (G x) reader e next r stop := by
  constructor
  · exact hF.calls_of_calls_bind
  · rintro (calls | ⟨x, next, run, calls⟩)
    · exact fun error => bind_of_failed (calls error)
    · rcases hF.calls_or_ignores reader e c stop with ⟨r', early⟩ | ignores
      · -- The second part cannot come back to a cursor behind which the first has read.
        obtain ⟨a, mid, done, before⟩ := hF.done_of_calls advances early run
        have := advances r' e stop a mid done
        have := (hG x).calls_le advances calls
        omega
      · intro error
        exact (bind_of_done ((ignores error).trans run)).trans (calls error)

/-! ## Agreement up to a call -/

/-- Two readers that agree on every call of the first but for some, on which the second
fails: the runs are the same, or the second fails as it does on the first such call. All
other such calls are made behind that one. -/
theorem agree_until {other : AttributeReader} {bad : Resolver → Cursor → Prop} (hF : Context F)
    (advances : reader.Advances)
    (agree : ∀ r stop, Calls F reader e c r stop → ¬ bad r stop → other r e stop = reader r e stop)
    (fails : ∀ r stop, Calls F reader e c r stop → bad r stop →
      ∃ error last, other r e stop = .failed error last) :
    ((∀ r stop, Calls F reader e c r stop → ¬ bad r stop) ∧ F other e c = F reader e c) ∨
    ∃ r stop error last, Calls F reader e c r stop ∧ bad r stop ∧
      other r e stop = .failed error last ∧ F other e c = .failed error last ∧
      ∀ r' stop', Calls F reader e c r' stop' → bad r' stop' →
        (r' = r ∧ stop' = stop) ∨
        ∃ x next, reader r e stop = .done x next ∧ stop'.unread.length ≤ next.unread.length := by
  -- If the first part of a sequence is the same with both readers, the second starts from the
  -- same cursor with both; otherwise the sequence ends where the first part does.
  induction hF generalizing c with
  | const _ => exact .inl ⟨fun r stop calls => absurd calls not_calls_const, rfl⟩
  | call r =>
      have here : Calls (fun reader => reader r) reader e c r c := calls_call_iff.mpr ⟨rfl, rfl⟩
      by_cases trouble : bad r c
      · obtain ⟨error, last, run⟩ := fails r c here trouble
        refine .inr ⟨r, c, error, last, here, trouble, run, run, ?_⟩
        intro r' stop' calls _
        exact .inl (calls_call_iff.mp calls)
      · refine .inl ⟨?_, agree r c here trouble⟩
        intro r' stop' calls
        obtain ⟨rfl, rfl⟩ := calls_call_iff.mp calls
        exact trouble
  | @bind α β F G hF hG first second =>
      have inFirst : ∀ r stop, Calls F reader e c r stop →
          Calls (fun reader => F reader >>= fun x => G x reader) reader e c r stop :=
        fun r stop calls => (hF.calls_bind_iff hG advances).mpr (.inl calls)
      rcases first (fun r stop calls => agree r stop (inFirst r stop calls))
        (fun r stop calls => fails r stop (inFirst r stop calls)) with
        ⟨quiet, same⟩ | ⟨r, stop, error, last, calls, trouble, run, whole, earliest⟩
      · cases part : F reader e c with
        | failed error stop =>
            left
            refine ⟨?_, ?_⟩
            · intro r stop' calls
              rcases hF.calls_of_calls_bind calls with calls | ⟨x, next, run, -⟩
              · exact quiet r stop' calls
              · cases part.symm.trans run
            · exact (bind_of_failed (same.trans part)).trans (bind_of_failed part).symm
        | done x mid =>
            have left' := bind_of_done (f := fun x => G x other) (same.trans part)
            have right' := bind_of_done (f := fun x => G x reader) part
            have inSecond : ∀ r stop, Calls (G x) reader e mid r stop →
                Calls (fun reader => F reader >>= fun x => G x reader) reader e c r stop :=
              fun r stop calls => (hF.calls_bind_iff hG advances).mpr (.inr ⟨x, mid, part, calls⟩)
            -- Since the first part is quiet, trouble is trouble of the second.
            have later : ∀ r stop, Calls (fun reader => F reader >>= fun x => G x reader) reader e c
                r stop → bad r stop → Calls (G x) reader e mid r stop := by
              intro r stop calls trouble
              rcases hF.calls_of_calls_bind calls with calls | ⟨x', mid', part', calls⟩
              · exact absurd trouble (quiet r stop calls)
              · cases part.symm.trans part'
                exact calls
            rcases second x (fun r stop calls => agree r stop (inSecond r stop calls))
              (fun r stop calls => fails r stop (inSecond r stop calls)) with
              ⟨quiet', same'⟩ | ⟨r, stop, error, last, calls, trouble, run, whole, earliest⟩
            · refine .inl ⟨?_, left'.trans (same'.trans right'.symm)⟩
              intro r stop calls trouble
              exact quiet' r stop (later r stop calls trouble) trouble
            · refine .inr ⟨r, stop, error, last, inSecond r stop calls, trouble, run,
                left'.trans whole, ?_⟩
              intro r' stop' calls' trouble'
              exact earliest r' stop' (later r' stop' calls' trouble') trouble'
      · refine .inr ⟨r, stop, error, last, inFirst r stop calls, trouble, run,
          bind_of_failed whole, ?_⟩
        intro r' stop' calls' trouble'
        rcases hF.calls_of_calls_bind calls' with calls' | ⟨x, mid, part, calls'⟩
        · exact earliest r' stop' calls' trouble'
        · right
          obtain ⟨a, next, done, before⟩ := hF.done_of_calls advances calls part
          have := (hG x).calls_le advances calls'
          exact ⟨a, next, done, by omega⟩

end Context

end Calls

end ClassOutline
