import ClassOutline.Proofs.Lookups
import ClassOutline.Proofs.PoolAnswers

/-!
What decoders fail with.

A decoder that fails has run out of bytes, and then fails as the stream ends, or it has a
reason of its own. `Raises P p` says that the reasons of `p` are among `P`. For a composition
they are read off its account: they are the errors it was put together with, and the answers
to its lookups (`Raises.of_accounted`).

Classes are read in stages, and have the reasons of all of them (`Class.Cause`). The answers
come from the pool of the class, and what a pool says is always that an index is unresolved,
with the index that is at fault (`Pool.lacks_of_complains`). In particular, in lenient mode
nothing in a class is called malformed (`Class.Cause.not_malformed_of_lenient`).
-/

set_option autoImplicit false

namespace ClassOutline

open Decoder

/-! ## Reasons to fail -/

/-- The answer to the last question is an answer of the resolver. -/
theorem Resolver.AnsweredLast.complains {r : Resolver} {c : Cursor} {error : Error}
    (h : r.AnsweredLast c error) : r.Complains error := by
  obtain ⟨question, index, older, -, answer⟩ := h
  exact ⟨question, index, answer⟩

namespace Decoder

variable {α β : Type} {P Q : Error → Prop}

/-- Fails as the stream ends, or for a reason among `P`. -/
def Raises (P : Error → Prop) (p : Decoder α) : Prop :=
  ∀ e c error stop, p e c = .failed error stop → error = e.error ∨ P error

namespace Raises

/-- More reasons may be allowed. -/
theorem mono (sub : ∀ error, P error → Q error) {p : Decoder α} (hp : Raises P p) : Raises Q p :=
  fun e c error stop run => (hp e c error stop run).imp_right (sub error)

/-- The reasons of a sequence are those of its parts. -/
theorem bind {p : Decoder α} {f : α → Decoder β} (hp : Raises P p) (hf : ∀ x, Raises P (f x)) :
    Raises P (p >>= f) := by
  intro e c error stop run
  rw [bind_apply] at run
  cases first : p e c with
  | failed error' stop' =>
      rw [first] at run
      cases run
      exact hp e c error stop first
  | done x mid =>
      rw [first] at run
      exact hf x e mid error stop run

/-- A decoder that accounts for its runs fails for its own reasons, or with an answer. -/
theorem of_accounted {own : Error → Prop} {r : Resolver} {p : Decoder α}
    (accounted : ∀ e c, (p e c).Accounted own r e c) :
    Raises (fun error => own error ∨ r.Complains error) p := by
  intro e c error stop run
  have account := accounted e c
  rw [run] at account
  rcases account with answer | ⟨-, ending | reason⟩
  · exact .inr (.inr answer.complains)
  · exact .inl ending
  · exact .inr (.inl reason)

end Raises

end Decoder

/-- A composition that does not ask fails for its own reasons only. -/
theorem Composed.raises_const {own : Error → Prop} {α : Type} {p : Decoder α}
    (hp : Composed own fun _ _ => p) : Raises own p := by
  -- A resolver with an answer to everything has nothing to complain about.
  let r : Resolver := fun _ _ => .ok ""
  refine (Raises.of_accounted (hp.accounted_closed r)).mono fun error reason => ?_
  rcases reason with reason | ⟨question, index, answer⟩
  · exact reason
  · cases answer

/-- The stream itself never calls an attribute malformed. -/
theorem Ending.error_ne_malformedAttribute (e : Ending) (name reason : String) :
    e.error ≠ .malformedAttribute name reason := by
  cases e with
  | endOfFile => exact Error.noConfusion
  | failing cause =>
      unfold Ending.error Error.ofFailure
      dsimp only
      split <;> exact Error.noConfusion

/-- A malformed attribute is never the way a stream ends, so it is a reason of the decoder. -/
theorem Decoder.Raises.of_malformed {α : Type} {P : Error → Prop} {p : Decoder α}
    (hp : Raises P p) {e : Ending} {c stop : Cursor} {name reason : String}
    (run : p e c = .failed (.malformedAttribute name reason) stop) :
    P (.malformedAttribute name reason) :=
  (hp e c _ stop run).resolve_left (e.error_ne_malformedAttribute name reason).symm

/-- In lenient mode no attribute is refused for itself. -/
theorem Attribute.Refusal.not_of_lenient {settings : Settings} (lenient : settings.strict = false)
    (error : Error) : ¬ Refusal settings error := by
  rintro ⟨strict, -⟩
  rw [lenient] at strict
  cases strict

/-! ## Classes -/

/-- The reasons a class cannot be read, apart from the end of the stream. -/
inductive Class.Cause (settings : Settings) : Error → Prop
  | magic {magic : UInt32} : magic ≠ classMagic → Cause settings (.badMagic magic)
  | constant {error : Error} : Constant.Refusal error → Cause settings error
  | name {error : Error} : Refusal error → Cause settings error
  | inside {error : Error} : Attribute.Refusal settings error → Cause settings error
  | answer (pool : Pool) {error : Error} : pool.resolver.Complains error → Cause settings error

namespace Class

variable (settings : Settings)

/-- Behind its pool a class is refused for its name, for an attribute, or by the pool. -/
theorem raises_decodeBody (r : Resolver) (version : Version) (pool : Pool) :
    Raises (fun error => (Refusal error ∨ Attribute.Refusal settings error) ∨ r.Complains error)
      (decodeBody r (Attribute.decode settings r) version pool) := by
  refine .of_accounted fun e c => ?_
  have inside : ∀ c, (Attribute.decode settings r e c).Accounted
      (fun error => Refusal error ∨ Attribute.Refusal settings error) r e c :=
    fun c => (Attribute.accounted_decode settings r e c).mono fun _ => .inr
  exact ((composed_decodeBody version pool).mono fun _ => .inl).accounted inside c

/-- The reasons of a class are those of its stages. -/
theorem raises_decode : Raises (Cause settings) (Class.decode settings) := by
  rw [decode_eq]
  -- The stages of a class, one after the other.
  refine .bind ?magic fun _ => .bind ?version fun version => .bind ?pool fun pool => ?body
  case magic =>
    refine composed_decodeMagic.raises_const.mono ?_
    rintro error ⟨magic, other, rfl⟩
    exact .magic other
  case version =>
    have never : Raises (fun _ => False) Version.decode := Version.composed_decode.raises_const
    exact never.mono fun _ => False.elim
  case pool => exact Pool.composed_decode.raises_const.mono fun _ => .constant
  case body =>
    refine (raises_decodeBody settings pool.resolver version pool).mono ?_
    rintro error ((reason | reason) | complains)
    · exact .name reason
    · exact .inside reason
    · exact .answer pool complains

end Class

/-! ## Lenient mode -/

/-- In lenient mode nothing in a class is called malformed. -/
theorem Class.Cause.not_malformed_of_lenient {settings : Settings}
    (lenient : settings.strict = false) (name reason : String) :
    ¬ Cause settings (.malformedAttribute name reason) := by
  intro cause
  cases cause with
  | constant refusal => cases refusal
  | name refusal => cases refusal
  | inside refusal => exact absurd refusal (Attribute.Refusal.not_of_lenient lenient _)
  | answer pool complains =>
      obtain ⟨_, _, unresolved, -⟩ := Pool.lacks_of_complains complains
      cases unresolved

end ClassOutline
