import ClassOutline.Proofs.AttributeGrammar
import ClassOutline.Proofs.Lookups

/-!
Exception tables do not ask for the class at index 0.

In an exception table index 0 stands for every class, and a handler with it is read without a
question to the resolver. The other place where a method body has classes is a list of
exceptions, in an attribute of the body or of a body inside it, and there index 0 is looked up
like any other. So a body that was read and holds no such list, at any depth, was read without
the answer for index 0, whatever a resolver would have said.

The proof takes a third resolver, which refuses index 0 and is else like the first. Bytes that
spell an attribute without a list of exceptions spell it with this resolver too
(`Attribute.Spelled.of_agree`), so it reads them. A run that comes to its end was given all the
answers it asked for, and this one cannot have been given one for index 0. What a run has not
asked for makes no difference to it (`Composed.eq_of_refused`).
-/

set_option autoImplicit false

namespace ClassOutline

open Decoder

/-! ## Attributes at all depths -/

namespace Attribute

mutual

/-- An attribute and those inside it, at all depths. -/
def within : Attribute → List Attribute
  | code ⟨maxStack, maxLocals, bytecode, handlers, attributes⟩ =>
      code ⟨maxStack, maxLocals, bytecode, handlers, attributes⟩ :: withinAll attributes
  | a => [a]

/-- The attributes of a list and those inside them. -/
def withinAll : List Attribute → List Attribute
  | [] => []
  | first :: rest => within first ++ withinAll rest

end

/-- A body and what is inside it. -/
theorem within_code (body : Code String Attribute) :
    (code body).within = code body :: withinAll body.attributes := by
  cases body
  rw [within]

/-- What is within a list is within one of its attributes. -/
theorem mem_withinAll_iff (a : Attribute) (as : List Attribute) :
    a ∈ withinAll as ↔ ∃ b ∈ as, a ∈ b.within := by
  induction as with
  | nil => simp [withinAll]
  | cons first rest ih => simp [withinAll, ih]

/-- Neither the attribute nor one inside it is a list of exceptions. -/
def WithoutExceptions (a : Attribute) : Prop := ∀ names, exceptions names ∉ a.within

/-- Of a body this is known by its attributes. -/
theorem withoutExceptions_code_iff (body : Code String Attribute) :
    (code body).WithoutExceptions ↔ ∀ names, exceptions names ∉ withinAll body.attributes := by
  simp [WithoutExceptions, within_code]

namespace WithoutExceptions

/-- In particular the attribute itself is no such list. -/
theorem ne_exceptions {a : Attribute} (h : a.WithoutExceptions) (names : List String) :
    a ≠ exceptions names := by
  rintro rfl
  exact h names List.mem_cons_self

/-- What stands inside an attribute without lists of exceptions has none either. -/
theorem of_mem_inside {a b : Attribute} (h : a.WithoutExceptions) (mem : b ∈ a.inside) :
    b.WithoutExceptions := by
  intro names found
  cases a with
  | code body =>
      rw [withoutExceptions_code_iff] at h
      exact h names ((mem_withinAll_iff _ _).mpr ⟨b, mem, found⟩)
  | _ => cases mem

end WithoutExceptions

end Attribute

/-! ## Two resolvers -/

/-- The two give the same answers, except to the question for the class at index 0. -/
def Resolver.AgreeBeyondZero (r r' : Resolver) : Prop :=
  ∀ question index, (question, index) ≠ (.className, 0) → r' question index = r question index

/-- The answers of `r`, but none for the class at index 0. -/
def Resolver.refusingZero (r : Resolver) : Resolver
  | .className, index =>
      if index = 0 then .error (.unresolved index .classRef) else r .className index
  | question, index => r question index

/-- The resolver that refuses index 0 differs nowhere else. -/
theorem Resolver.agree_refusingZero (r : Resolver) : r.AgreeBeyondZero r.refusingZero := by
  intro question index other
  cases question with
  | className =>
      have present : index ≠ 0 := fun zero => other (by rw [zero])
      exact if_neg present
  | utf8 => rfl
  | literal => rfl

theorem Resolver.refusingZero_className_zero (r : Resolver) :
    r.refusingZero .className 0 = .error (.unresolved 0 .classRef) := by
  rw [refusingZero, if_pos rfl]

section Grammar

variable {settings : Settings} {r r' : Resolver} (agree : r.AgreeBeyondZero r')

include agree

/-- A handler has no use for the class at index 0. -/
theorem Handler.resolved?_of_agree (h : Handler UInt16) : h.resolved? r' = h.resolved? r := by
  rw [resolved?, resolved?]
  by_cases any : h.catchType = 0
  · rw [if_pos any, if_pos any]
  · have other : (Lookup.className, h.catchType) ≠ (.className, 0) :=
      fun same => any (congrArg Prod.snd same)
    rw [if_neg any, if_neg any, agree _ _ other]

namespace Attribute

/-- Of all payloads only lists of exceptions have a use for it. -/
theorem Payload.of_agree {R : List UInt8 → Attribute → Prop} {frame : Frame}
    {fields : List UInt8} {a : Attribute} (noList : ∀ names, a ≠ .exceptions names)
    (payload : Payload settings r R frame fields a) : Payload settings r' R frame fields a := by
  cases payload with
  | skipped skips whole => exact .skipped skips whole
  | constantValue answer => exact .constantValue ((agree .literal _ (by simp)).trans answer)
  | sourceFile answer => exact .sourceFile ((agree .utf8 _ (by simp)).trans answer)
  | exceptions _ _ => exact absurd rfl (noList _)
  | code short few fewer resolved inner =>
      refine .code short few fewer (resolved.imp fun h _ caught => ?_) inner
      rwa [Handler.resolved?_of_agree agree h]

/-- An attribute without lists of exceptions is spelled alike with both resolvers. -/
theorem Spelled.of_agree {bytes : List UInt8} {a : Attribute}
    (spelled : Spelled settings r bytes a) (without : a.WithoutExceptions) :
    Spelled settings r' bytes a := by
  -- By the number of bytes: whatever stands inside an attribute has fewer.
  induction size : bytes.length using Nat.strongRecOn generalizing bytes a with
  | ind n ih =>
      cases spelled with
      | @framed index frame fields _ named payload =>
          have named' := (agree .utf8 index (by simp)).trans named
          refine @Spelled.framed _ _ index frame fields a named' ?_
          refine (payload.imp ?_).of_agree agree without.ne_exceptions
          intro part b mem short inner
          refine ih part.length ?_ inner (without.of_mem_inside mem) rfl
          rw [← size, List.length_append, bytes16, bigEndian_length, List.length_append]
          omega

/-- So it is read by both. -/
theorem exists_decode_of_agree {e : Ending} {c next : Cursor} {a : Attribute}
    (run : decode settings r e c = .done a next) (without : a.WithoutExceptions) :
    ∃ last, decode settings r' e c = .done a last := by
  obtain ⟨taken, unread, spelled⟩ := takes_decode _ _ _ _ run
  obtain ⟨journal, run'⟩ := (spelled.of_agree agree without).reads_decode e next.unread c.journal
  rw [← unread] at run'
  exact ⟨_, run'⟩

/-- A method body likewise. -/
theorem exists_decodeBody_of_agree {e : Ending} {c next : Cursor} {body : Code String Attribute}
    (run : Code.decode settings r e c = .done body next) (without : (code body).WithoutExceptions) :
    ∃ last, Code.decode settings r' e c = .done body last := by
  rw [Code.decode_eq] at run ⊢
  obtain ⟨taken, unread, payload⟩ := takes_code takes_decode _ _ _ _ run
  have spelled : Payload settings r' (Reads (decode settings r')) ⟨AttributeKind.code.name, 0⟩
      taken (.code body) :=
    ((payload 0).of_agree agree without.ne_exceptions).imp fun part b mem _ inner =>
      (inner.of_agree agree (without.of_mem_inside mem)).reads_decode
  obtain ⟨journal, run'⟩ := spelled.reads_code e next.unread c.journal
  rw [← unread] at run'
  exact ⟨_, run'⟩

end Attribute

end Grammar

/-! ## Runs without the answer -/

/-- The question for the class at index 0. -/
def Event.classZero : Event := .lookup .className 0

/-- The journal was added to between the two, and not by the question for index 0. -/
def Cursor.SparesZero (c next : Cursor) : Prop :=
  ∃ added, next.journal = added ++ c.journal ∧ Event.classZero ∉ added

/-- If a run does without the answer for index 0, so does every other. -/
theorem Composed.eq_of_refused {own : Error → Prop} {α : Type} {F : Resolver → Decoder α}
    (hF : Composed own fun r _ => F r) {r r' : Resolver} (agree : r.AgreeBeyondZero r')
    {e : Ending} {c next last : Cursor} {x y : α} (run : F r e c = .done x next)
    (refused : F r.refusingZero e c = .done y last) :
    F r' e c = .done x next ∧ c.SparesZero next := by
  obtain ⟨added, journal, answered, determined⟩ := hF.exists_trace_closed r.refusingZero e c
  -- The run came to its end, so all that it asked for was answered; index 0 would not have been.
  have spared : Event.classZero ∉ added := by
    intro asked
    obtain ⟨text, answer⟩ := answered y last refused .className 0 asked
    rw [r.refusingZero_className_zero] at answer
    cases answer
  have other : ∀ question index, .lookup question index ∈ added →
      (question, index) ≠ (.className, 0) := by
    rintro question index asked zero
    cases zero
    exact spared asked
  -- What was asked for has the same answers in all three resolvers.
  have first : F r e c = F r.refusingZero e c := determined r fun question index asked =>
    (r.agree_refusingZero question index (other question index asked)).symm
  have second : F r' e c = F r.refusingZero e c := determined r' fun question index asked =>
    (agree question index (other question index asked)).trans
      (r.agree_refusingZero question index (other question index asked)).symm
  rw [← first, run] at journal
  exact ⟨second.trans (first.symm.trans run), added, journal, spared⟩

/-- **Index 0 is not looked up in exception tables.** Let two resolvers agree on everything but
the class at index 0, where they may answer or fail as they like. Whatever the first of them
reads without a list of exceptions in it, at any depth, the second reads as well: the same
method body or attribute, with the same bytes unread and the same questions asked. None of these
is the one for the class at index 0. -/
theorem decode_independent_of_classZero (settings : Settings) {r r' : Resolver}
    (agree : r.AgreeBeyondZero r') (e : Ending) (c next : Cursor) :
    (∀ body, Code.decode settings r e c = .done body next →
      (∀ names, .exceptions names ∉ Attribute.withinAll body.attributes) →
      Code.decode settings r' e c = .done body next ∧ c.SparesZero next) ∧
    ∀ a, Attribute.decode settings r e c = .done a next → a.WithoutExceptions →
      Attribute.decode settings r' e c = .done a next ∧ c.SparesZero next := by
  have zero := r.agree_refusingZero
  -- The depth is bounded by the bytes at hand, which are the same for all resolvers.
  have attributes := Attribute.composed_decodeWithin settings c.unread.length
  constructor
  · intro body run without
    rw [← Attribute.withoutExceptions_code_iff] at without
    obtain ⟨last, refused⟩ := Attribute.exists_decodeBody_of_agree zero run without
    exact (Code.composed_decodeWith.fill attributes).eq_of_refused agree run refused
  · intro a run without
    obtain ⟨last, refused⟩ := Attribute.exists_decode_of_agree zero run without
    exact attributes.eq_of_refused agree run refused

/-- A pool that has the name of method bodies and nothing else. -/
def bodyNames : Pool := ⟨#[none, some (.utf8 "Code")]⟩

/-- A body with a handler for everything, and a body with such a handler inside it. -/
def catchAllSample : List UInt8 :=
  [0, 1, 0, 1, 0, 0, 0, 1, 0xB1, 0, 1, 0, 0, 0, 1, 0, 1, 0, 0, 0, 1,
    0, 1, 0, 0, 0, 0, 0, 0, 0, 0, 0, 0, 0, 0, 0, 1, 0, 0, 0, 0, 0, 0, 0, 0, 0, 0]

/-- It is read by a resolver that refuses index 0, as it is by the pool itself. -/
theorem catchAllSample_independent :
    bodyNames.resolver.AgreeBeyondZero bodyNames.resolver.refusingZero ∧
    ∃ body journal,
      Code.decode {} bodyNames.resolver .endOfFile ⟨catchAllSample, []⟩
        = .done body ⟨[], journal⟩ ∧
      Code.decode {} bodyNames.resolver.refusingZero .endOfFile ⟨catchAllSample, []⟩
        = .done body ⟨[], journal⟩ := by
  have agree := bodyNames.resolver.agree_refusingZero
  have read : (Code.decode {} bodyNames.resolver).verdict catchAllSample
      = .ok (⟨1, 1, [0xB1], [⟨0, 1, 1, "any"⟩], [.code ⟨0, 0, [], [⟨0, 0, 0, "any"⟩], []⟩]⟩, []) :=
    rfl
  obtain ⟨journal, run⟩ := run_of_verdict read
  have without : ∀ names, Attribute.exceptions names ∉ Attribute.withinAll
      [.code ⟨0, 0, [], [⟨0, 0, 0, "any"⟩], []⟩] := by
    intro names
    simp [Attribute.withinAll, Attribute.within]
  exact ⟨agree, _, journal, run,
    ((decode_independent_of_classZero {} agree _ _ _).1 _ run without).1⟩

end ClassOutline
