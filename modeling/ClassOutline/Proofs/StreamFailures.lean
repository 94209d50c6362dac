import ClassOutline.Proofs.FailureCauses
import ClassOutline.Proofs.Lookups
import ClassOutline.Proofs.Streaming

/-!
Streams that fail at their end.

A stream ends in a plain end of file, or it fails where a byte would be. The two are told
apart only by a run that asks for that byte. So a run that comes to anything but truncation
comes to the same on both, with the same bytes left unread; and where the plain stream is
truncated, the failing one gives its own failure, which is again a truncation if the stream
calls it an early end (`ReportsFailures`).

`ClassOutline.Streaming` has the dichotomy that this rests on: a run is settled or starved.
What is left to show is that truncation is a sign of starvation, that is, that no decoder
says so of itself. Pools and classes do not, since it is not among their reasons to fail.
Attributes do not either, but their resolver might: it is free to answer a lookup with
whatever error it likes. Then the run ends with that lookup, and the journal tells this
truncation from one of the stream.
-/

set_option autoImplicit false

namespace ClassOutline

/-- A stream that fails in a way of its own. -/
def Ending.broken : Ending := .failing (.raised .other "")

theorem Ending.error_broken_ne_truncated : broken.error ≠ .truncated := by decide

namespace Decoder

variable {α : Type} {p : Decoder α}

/-- What a decoder makes of a stream that fails behind the given bytes, compared with a plain
end of file. At the cursors `answered` a truncation is the answer to a lookup. -/
structure ReportsFailures (p : Decoder α) (answered : Cursor → Prop) : Prop where
  /-- A value, its unread bytes and any error but truncation stay as they are. -/
  unaffected : ∀ bytes cause, p.verdict bytes ≠ .error .truncated →
    p (.failing cause) (Cursor.start bytes) = p .endOfFile (Cursor.start bytes)
  /-- Truncation gives way to what the stream reports. -/
  reported : ∀ bytes cause stop,
    p .endOfFile (Cursor.start bytes) = .failed .truncated stop → ¬ answered stop →
      p (.failing cause) (Cursor.start bytes) = .failed
        (if cause.kind = .unexpectedEof then .truncated else .failure cause) stop
  /-- If it was an answer, the stream has no part in it. -/
  foreign : ∀ bytes cause stop,
    p .endOfFile (Cursor.start bytes) = .failed .truncated stop → answered stop →
      p (.failing cause) (Cursor.start bytes) = .failed .truncated stop

/-- It is enough to know where settled runs are truncated. -/
theorem Streams.reportsFailures {answered : Cursor → Prop} (hp : Streams p)
    (settled : ∀ bytes stop, Settled p (Cursor.start bytes) →
      p .endOfFile (Cursor.start bytes) = .failed .truncated stop → answered stop)
    (starved : ∀ bytes stop, (∀ e, p e (Cursor.start bytes) = .failed e.error stop) →
      ¬ answered stop) : ReportsFailures p answered := by
  -- A settled run does not see the ending, and a starved run ends with it.
  refine ⟨?_, ?_, ?_⟩
  · intro bytes cause other
    rcases hp (Cursor.start bytes) with calm | hungry
    · exact calm.eq_endOfFile _
    · exact absurd hungry.verdict_eq other
  · intro bytes cause stop run apart
    rcases hp (Cursor.start bytes) with calm | ⟨stop', hungry⟩
    · exact absurd (settled bytes stop calm run) apart
    · -- Both runs stop at the same place, and the ending is the error.
      cases run.symm.trans (hungry .endOfFile)
      exact hungry (.failing cause)
  · intro bytes cause stop run answer
    rcases hp (Cursor.start bytes) with calm | ⟨stop', hungry⟩
    · rw [calm.eq_endOfFile, run]
    · cases run.symm.trans (hungry .endOfFile)
      exact absurd answer (starved bytes stop hungry)

/-- A decoder that has no reason of its own to speak of truncation does so when it is
starved. -/
theorem Raises.not_settled {P : Error → Prop} (raises : Raises P p) (noReason : ¬ P .truncated)
    {c stop : Cursor} (run : p .endOfFile c = .failed .truncated stop) : ¬ Settled p c := by
  intro calm
  have broken : p .broken c = .failed .truncated stop := by
    rw [calm.eq_endOfFile, run]
  -- A settled run would be truncated on the broken stream as well, where nothing says so.
  rcases raises _ _ _ _ broken with ending | own
  · exact Ending.error_broken_ne_truncated ending.symm
  · exact noReason own

/-- So it leaves truncation to the stream. -/
theorem Streams.reportsFailures_of_raises {P : Error → Prop} (hp : Streams p)
    (raises : Raises P p) (noReason : ¬ P .truncated) : ReportsFailures p fun _ => False :=
  hp.reportsFailures (fun _ _ calm run => raises.not_settled noReason run calm) fun _ _ _ => id

/-- A decoder that asks a resolver leaves it to the stream and to the answers. -/
theorem Streams.reportsFailures_of_accounted {own : Error → Prop} {r : Resolver} (hp : Streams p)
    (noReason : ¬ own .truncated) (accounted : ∀ e c, (p e c).Accounted own r e c) :
    ReportsFailures p fun stop => r.AnsweredLast stop .truncated := by
  refine hp.reportsFailures ?_ ?_
  · intro bytes stop calm run
    have broken := accounted .broken (Cursor.start bytes)
    rw [calm.eq_endOfFile, run] at broken
    rcases broken with answer | ⟨-, ending | reason⟩
    · exact answer
    · exact absurd ending.symm Ending.error_broken_ne_truncated
    · exact absurd reason noReason
  · intro bytes stop hungry answer
    -- The broken stream's own error is not the answer to the last question.
    have broken := accounted .broken (Cursor.start bytes)
    rw [hungry] at broken
    rcases broken with answer' | ⟨back, -⟩
    · exact Ending.error_broken_ne_truncated (answer'.unique answer)
    · exact r.not_refused_start bytes (back ⟨_, answer⟩)

end Decoder

open Decoder

/-! ## Pools and classes -/

/-- What a pool has no answer for is unresolved. -/
theorem Pool.not_complains_truncated (pool : Pool) : ¬ pool.resolver.Complains .truncated := by
  intro complains
  obtain ⟨_, _, unresolved, -⟩ := Pool.lacks_of_complains complains
  cases unresolved

/-- So a pool never answers that it was cut. -/
theorem Pool.not_answeredLast_truncated (pool : Pool) (stop : Cursor) :
    ¬ pool.resolver.AnsweredLast stop .truncated :=
  fun answer => pool.not_complains_truncated answer.complains

/-- No cause for a class to be refused is a truncation. -/
theorem Class.Cause.not_truncated {settings : Settings} : ¬ Class.Cause settings .truncated := by
  intro cause
  cases cause with
  | constant refusal => cases refusal
  | name refusal => cases refusal
  | inside refusal => cases refusal
  | answer pool complains => exact pool.not_complains_truncated complains

theorem Attribute.Refusal.not_truncated (settings : Settings) :
    ¬ Attribute.Refusal settings .truncated := by
  intro refusal
  cases refusal

/-! ## All decoders -/

/-- **Failures of a stream are reported, and only when they are met.** Classes and pools do
so, and attributes, lists of attributes and method bodies with any answers to lookups. A
truncation that is not the stream's is the answer to the last lookup of the run; a constant
pool does not give such answers. -/
theorem decoders_reportFailures (settings : Settings) (r : Resolver) :
    ReportsFailures (Class.decode settings) (fun _ => False) ∧
    ReportsFailures Pool.decode (fun _ => False) ∧
    ReportsFailures (Attribute.decode settings r) (r.AnsweredLast · .truncated) ∧
    ReportsFailures (Attribute.decodeList settings r) (r.AnsweredLast · .truncated) ∧
    ReportsFailures (Code.decode settings r) (r.AnsweredLast · .truncated) ∧
    ∀ (pool : Pool) (stop : Cursor), ¬ pool.resolver.AnsweredLast stop .truncated := by
  have attributes := Attribute.accounted_decode settings r
  -- Classes and pools have a list of all their reasons; what is given a resolver has to account for
  -- its answers.
  refine ⟨?_, ?_, ?_, ?_, ?_, Pool.not_answeredLast_truncated⟩
  · exact (Class.regular_decode settings).streams.reportsFailures_of_raises
      (Class.raises_decode settings) Class.Cause.not_truncated
  · exact Pool.composed_decode.sequential_const.streams.reportsFailures_of_raises
      Pool.composed_decode.raises_const fun refusal => nomatch refusal
  · exact (Attribute.regular_decode settings r).streams.reportsFailures_of_accounted
      (Attribute.Refusal.not_truncated settings) attributes
  · refine (Attribute.regular_decodeList settings r).streams.reportsFailures_of_accounted
      (Attribute.Refusal.not_truncated settings) fun e c => ?_
    rw [Attribute.decodeList_eq]
    exact (Composed.counted .nested).accounted (attributes e) c
  · refine (Code.regular_decode settings r).streams.reportsFailures_of_accounted
      (Attribute.Refusal.not_truncated settings) fun e c => ?_
    rw [Code.decode_eq]
    exact Code.composed_decodeWith.accounted (attributes e) c

/-! A marker, whose payload is one byte. Behind it the failure of the stream is not met; in
place of its payload it is, and is passed on unless the stream calls it an early end. -/

/-- A failure of its own kind. -/
def slowStream : Failure := .raised .timedOut "slow"

/-- A failure that is an early end. -/
def cutStream : Failure := .raised .unexpectedEof "cut"

/-- All texts are the name of a marker. -/
def markerNames : Resolver := fun _ _ => .ok "Synthetic"

/-- Behind the payload the slow stream is not met. In place of the payload it is reported, and the
cut one is a truncation. -/
theorem marker_reportsFailures :
    (∃ next, Attribute.decode {} markerNames (.failing slowStream)
        (Cursor.start [0, 1, 0, 0, 0, 1, 7, 9]) = .done .synthetic next ∧ next.unread = [9]) ∧
    (∃ stop, Attribute.decode {} markerNames (.failing slowStream)
        (Cursor.start [0, 1, 0, 0, 0, 1]) = .failed (.failure slowStream) stop) ∧
    ∃ stop, Attribute.decode {} markerNames (.failing cutStream)
        (Cursor.start [0, 1, 0, 0, 0, 1]) = .failed .truncated stop := by
  obtain ⟨-, -, marker, -⟩ := decoders_reportFailures {} markerNames
  have accepted : (Attribute.decode {} markerNames).verdict [0, 1, 0, 0, 0, 1, 7, 9]
      ≠ .error .truncated := fun truncated => nomatch truncated
  have answers : ∀ stop, ¬ markerNames.AnsweredLast stop .truncated := by
    rintro stop ⟨question, index, older, -, answer⟩
    cases answer
  refine ⟨?_, ?_, ?_⟩
  · rw [marker.unaffected _ slowStream accepted]
    exact ⟨_, rfl, rfl⟩
  · exact ⟨_, marker.reported _ slowStream _ rfl (answers _)⟩
  · exact ⟨_, marker.reported _ cutStream _ rfl (answers _)⟩

/-- A resolver that has run out of bytes itself. -/
def cutNames : Resolver := fun _ _ => .error .truncated

/-- With this resolver an attribute is truncated at its name, although no byte is missing so
far. The stream that fails behind the name is not met, and its failure is not reported. -/
theorem cutNames_failure_not_reported :
    (Attribute.decode {} cutNames).verdict [0, 1] = .error .truncated ∧
    ∃ stop, Attribute.decode {} cutNames (.failing slowStream) (Cursor.start [0, 1])
        = .failed .truncated stop ∧ Error.truncated ≠ .failure slowStream :=
  ⟨rfl, _, rfl, nofun⟩

end ClassOutline
