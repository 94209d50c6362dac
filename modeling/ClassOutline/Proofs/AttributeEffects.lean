import ClassOutline.Class
import Mathlib.Data.List.Induction

/-!
What a list of attributes leaves in a field, a method or a class.

All three take up their attributes one after the other, and nothing keeps a class file from
having several of a kind. What comes of that is said here without going through the list step
by step (`Field.Carries`, `Method.Carries`, `Class.Carries`). A marker counts wherever it
stands, and of several values, lists of exceptions or source files the last one counts. On a
method the sizes and the bytecode are those of the last body. The handlers are those of every
body, in order: where the other fields are set, they are added to.

So the fields of a method that come from bodies describe one body together, the last, exactly
if no body in front of it has handlers (`Method.Carries.bodyFields_eq_iff`).

One more attribute is the step (`Field.Carries.apply` and so on), and an induction from the
right makes it a statement about lists (`Attribute.Meaning.foldl_induction`).
-/

set_option autoImplicit false

namespace ClassOutline

/-! ## Attributes by kind -/

namespace Attribute

/-- The method body that an attribute is. -/
def body? : Attribute → Option (Code String Attribute)
  | code body => some body
  | _ => none

/-- The text of the value that an attribute gives. -/
def value? : Attribute → Option String
  | constantValue text => some text
  | _ => none

/-- The exceptions that an attribute lists. -/
def exceptions? : Attribute → Option (List String)
  | exceptions names => some names
  | _ => none

/-- The source file that an attribute names. -/
def sourceFile? : Attribute → Option String
  | sourceFile name => some name
  | _ => none

/-- The bodies in a list of attributes. -/
def bodies (as : List Attribute) : List (Code String Attribute) := as.filterMap body?

/-- The lists of exceptions in a list of attributes. -/
def exceptionLists (as : List Attribute) : List (List String) := as.filterMap exceptions?

/-! ## Taking up a list -/

namespace Meaning

variable {σ β : Type} (meaning : Meaning σ)

/-- What holds at the start, and is kept by one more attribute, holds at the end. The induction
is from the right: what the list says so far is what the next attribute finds. -/
theorem foldl_induction {P : List Attribute → σ → Prop} {x : σ} (start : P [] x)
    (step : ∀ as x a, P as x → P (as ++ [a]) (meaning.apply x a)) (as : List Attribute) :
    P as (as.foldl meaning.apply x) := by
  induction as using List.reverseRecOn with
  | nil => exact start
  | append_singleton as a ih =>
      rw [List.foldl_append]
      exact step as _ a ih

/-- What no attribute changes is not changed by a list of them. -/
theorem foldl_apply_eq (part : σ → β) (untouched : ∀ x a, part (meaning.apply x a) = part x)
    (as : List Attribute) (x : σ) : part (as.foldl meaning.apply x) = part x :=
  meaning.foldl_induction (P := fun _ y => part y = part x) rfl
    (fun _ y a same => (untouched y a).trans same) as

end Meaning

end Attribute

open Attribute

/-! ## Fields -/

namespace Field

/-- The attributes, as they show in a field. -/
structure Carries (field : Field) (as : List Attribute) : Prop where
  /-- the last value counts -/
  constantValue : field.constantValue = (as.filterMap value?).getLast?
  deprecated : field.deprecated = true ↔ .deprecated ∈ as
  synthetic : field.synthetic = true ↔ .synthetic ∈ as

/-- One more attribute of a field. -/
theorem Carries.apply {field : Field} {as : List Attribute} (h : field.Carries as)
    (a : Attribute) : (field.apply a).Carries (as ++ [a]) := by
  obtain ⟨value, deprecated, synthetic⟩ := h
  cases a <;> constructor <;>
    simp [Field.apply, meaning, Meaning.apply, value?, value, deprecated, synthetic]

/-- The attributes of a field, taken up in order. -/
theorem carries_foldl_apply (access : Access .ofField) (name descriptor : String)
    (as : List Attribute) : (as.foldl apply { access, name, descriptor }).Carries as :=
  meaning.foldl_induction (P := fun as field => field.Carries as)
    ⟨rfl, by simp, by simp⟩ (fun _ _ a h => h.apply a) as

/-- What a field is apart from its attributes is not changed by them. -/
theorem foldl_apply_unchanged (as : List Attribute) (field : Field) :
    (as.foldl apply field).access = field.access ∧ (as.foldl apply field).name = field.name ∧
      (as.foldl apply field).descriptor = field.descriptor := by
  have same := meaning.foldl_apply_eq (fun f : Field => (f.access, f.name, f.descriptor))
    (fun _ a => by cases a <;> rfl) as field
  rw [Prod.mk.injEq, Prod.mk.injEq] at same
  exact same

end Field

/-! ## Methods -/

namespace Method

/-- The fields of a method that come from its bodies. -/
structure BodyFields where
  maxStack : UInt16
  maxLocals : UInt16
  bytecode : Option (List UInt8)
  handlers : List (Handler String)
  deriving DecidableEq

/-- The fields as one body has them, or as they are without a body. -/
def BodyFields.of : Option (Code String Attribute) → BodyFields
  | none => ⟨0, 0, none, []⟩
  | some body => ⟨body.maxStack, body.maxLocals, some body.bytecode, body.handlers⟩

/-- These fields of a method, together. -/
def bodyFields (m : Method) : BodyFields := ⟨m.maxStack, m.maxLocals, m.bytecode, m.handlers⟩

/-- The attributes, as they show in a method. -/
structure Carries (m : Method) (as : List Attribute) : Prop where
  /-- the last list of exceptions counts -/
  throws : m.throws = (exceptionLists as).getLast?.getD []
  deprecated : m.deprecated = true ↔ .deprecated ∈ as
  synthetic : m.synthetic = true ↔ .synthetic ∈ as
  /-- the last body counts, but the handlers are those of all bodies -/
  bodyFields : m.bodyFields = { BodyFields.of (bodies as).getLast? with
    handlers := (bodies as).flatMap Code.handlers }

/-- One more attribute. Only a body touches more than one field, and of its fields only the
handlers depend on what was there. -/
theorem Carries.apply {m : Method} {as : List Attribute} (h : m.Carries as) (a : Attribute) :
    (m.apply a).Carries (as ++ [a]) := by
  obtain ⟨throws, deprecated, synthetic, fields⟩ := h
  have handlers : m.handlers = (bodies as).flatMap Code.handlers :=
    congrArg BodyFields.handlers fields
  -- A body sets three fields and adds to the handlers; every other attribute sets one field of its
  -- own, or none.
  cases a with
  | code body =>
      constructor <;>
        simp_all [Method.apply, meaning, Meaning.apply, populate, setMaxStack, setMaxLocals,
          setBytecode, addHandlers, bodies, exceptionLists, body?, exceptions?, BodyFields.of,
          Method.bodyFields]
  | _ =>
      constructor <;>
        simp_all [Method.apply, meaning, Meaning.apply, bodies, exceptionLists, body?, exceptions?,
          Method.bodyFields]

/-- The attributes of a method, taken up in order. -/
theorem carries_foldl_apply (access : Access .ofMethod) (name descriptor : String)
    (as : List Attribute) : (as.foldl apply { access, name, descriptor }).Carries as :=
  meaning.foldl_induction (P := fun as m => m.Carries as)
    ⟨rfl, by simp, by simp, rfl⟩ (fun _ _ a h => h.apply a) as

/-- What a method is apart from its attributes is not changed by them. -/
theorem foldl_apply_unchanged (as : List Attribute) (m : Method) :
    (as.foldl apply m).access = m.access ∧ (as.foldl apply m).name = m.name ∧
      (as.foldl apply m).descriptor = m.descriptor := by
  have same := meaning.foldl_apply_eq (fun m : Method => (m.access, m.name, m.descriptor))
    (fun _ a => by cases a <;> rfl) as m
  rw [Prod.mk.injEq, Prod.mk.injEq] at same
  exact same

/-- The exceptions of a method are a list that stands among its attributes, if there is any. -/
theorem Carries.throws_eq_nil_or_mem {m : Method} {as : List Attribute} (h : m.Carries as) :
    m.throws = [] ∨ .exceptions m.throws ∈ as := by
  rw [h.throws]
  cases last : (exceptionLists as).getLast? with
  | none => exact .inl rfl
  | some names =>
      right
      obtain ⟨a, mem, lists⟩ := List.mem_filterMap.mp (List.mem_of_getLast? last)
      -- Of all attributes only a list of exceptions has one to give.
      cases a with
      | exceptions names' =>
          cases lists
          exact mem
      | _ => cases lists

/-! ### One body or several -/

/-- All the handlers are those of the last body if the others have none. -/
theorem flatMap_handlers_eq_iff (bs : List (Code String Attribute)) :
    bs.flatMap Code.handlers = (BodyFields.of bs.getLast?).handlers ↔
      ∀ body ∈ bs.dropLast, body.handlers = [] := by
  rcases List.eq_nil_or_concat bs with rfl | ⟨front, last, rfl⟩
  · simp [BodyFields.of]
  · -- The handlers of the last body are on both sides; what is in front of them is to be empty.
    simp [BodyFields.of]

/-- They are those of one body, the last, if no body in front of it has handlers. -/
theorem Carries.bodyFields_eq_iff {m : Method} {as : List Attribute} (h : m.Carries as) :
    m.bodyFields = .of (bodies as).getLast? ↔
      ∀ body ∈ (bodies as).dropLast, body.handlers = [] := by
  rw [← flatMap_handlers_eq_iff, h.bodyFields]
  constructor
  · intro same
    exact congrArg BodyFields.handlers same
  · intro same
    rw [same]

/-- **What a method has from its attributes.** Attributes that are taken up in order leave the
list of exceptions that comes last, a flag for each marker among them, and the sizes and the
bytecode of the last body. The handlers are those of all the bodies. So the four fields of a body
belong to one and the same body, the last, if and only if the bodies in front of it have no
handlers. -/
theorem attributes_taken_up (access : Access .ofMethod) (name descriptor : String)
    (as : List Attribute) :
    ∃ m, as.foldl apply { access, name, descriptor } = m ∧
      (m.access = access ∧ m.name = name ∧ m.descriptor = descriptor) ∧
      m.throws = (exceptionLists as).getLast?.getD [] ∧
      (m.deprecated = true ↔ .deprecated ∈ as) ∧
      (m.synthetic = true ↔ .synthetic ∈ as) ∧
      m.bodyFields = { BodyFields.of (bodies as).getLast? with
        handlers := (bodies as).flatMap Code.handlers } ∧
      (m.bodyFields = .of (bodies as).getLast? ↔
        ∀ body ∈ (bodies as).dropLast, body.handlers = []) := by
  have carries := carries_foldl_apply access name descriptor as
  exact ⟨_, rfl, foldl_apply_unchanged as _, carries.throws, carries.deprecated,
    carries.synthetic, carries.bodyFields, carries.bodyFields_eq_iff⟩

/-- A body with a handler. -/
def guardedSample : Code String Attribute := ⟨1, 1, [0xB1], [⟨0, 1, 1, anyClass⟩], []⟩

/-- A larger body, without one. -/
def plainSample : Code String Attribute := ⟨2, 3, [0x00, 0xB1], [], []⟩

/-- A method that takes up both has the sizes and the bytecode of the second with the handler of
the first, and so describes neither. -/
theorem guardedSample_mixed :
    let m := [Attribute.code guardedSample, .code plainSample].foldl apply
      { access := .ofBits .ofMethod 0, name := "m", descriptor := "()V" }
    m.bodyFields = ⟨2, 3, some [0x00, 0xB1], [⟨0, 1, 1, anyClass⟩]⟩ ∧
      m.bodyFields ≠ .of (some plainSample) := by
  decide

end Method

/-! ## Classes -/

namespace Class

/-- The attributes, as they show in a class. -/
structure Carries (c : Class) (as : List Attribute) : Prop where
  /-- the last source file counts -/
  sourceFile : c.sourceFile = (as.filterMap sourceFile?).getLast?
  deprecated : c.deprecated = true ↔ .deprecated ∈ as
  synthetic : c.synthetic = true ↔ .synthetic ∈ as

/-- One more attribute of a class. -/
theorem Carries.apply {c : Class} {as : List Attribute} (h : c.Carries as) (a : Attribute) :
    (c.apply a).Carries (as ++ [a]) := by
  obtain ⟨source, deprecated, synthetic⟩ := h
  cases a <;> constructor <;>
    simp [Class.apply, meaning, Meaning.apply, sourceFile?, source, deprecated, synthetic]

/-- A class carries the attributes it takes up in order, if it carries none before. -/
theorem carries_foldl_apply {c : Class} (fresh : c.Carries []) (as : List Attribute) :
    (as.foldl apply c).Carries as :=
  meaning.foldl_induction (P := fun as c => c.Carries as) fresh (fun _ _ a h => h.apply a) as

/-- A class without the effects of its attributes. -/
def bare (c : Class) : Class :=
  { c with sourceFile := none, deprecated := false, synthetic := false }

/-- Attributes of a class have no other effects. -/
theorem bare_foldl_apply (as : List Attribute) (c : Class) : (as.foldl apply c).bare = c.bare :=
  meaning.foldl_apply_eq bare (fun c a => by cases a <;> rfl) as c

/-- What the attributes do not touch is as it was before they took effect. -/
theorem foldl_apply_of_bare {α : Type} (part : Class → α)
    (untouched : ∀ c : Class, part c.bare = part c) (as : List Attribute) (c : Class) :
    part (as.foldl apply c) = part c := by
  rw [← untouched, bare_foldl_apply, untouched]

end Class

end ClassOutline
