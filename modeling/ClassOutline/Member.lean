import ClassOutline.Access
import ClassOutline.Attribute.Decode

/-!
Members of classes: what fields and methods have in common.

Both begin with flags, a name, a descriptor and attributes (`MemberParts`), and both are
what the attributes make of a new member. They differ in what an attribute means to them
and in what they are called in a report.
-/

set_option autoImplicit false

namespace ClassOutline

open Decoder

/-- A member with its texts looked up and its attributes read, before any of them has an
effect. -/
structure MemberParts (k : AccessKind) where
  access : Access k
  name : String
  descriptor : String
  attributes : List Attribute

namespace MemberParts

variable {k : AccessKind} {α : Type}

/-- Read the parts of a member, whose attributes `nested` reads. -/
def decode (k : AccessKind) (r : Resolver) (nested : Decoder Attribute) :
    Decoder (MemberParts k) := do
  let access ← Access.decode k
  let nameIndex ← u16
  let name ← r.ask .utf8 nameIndex
  let descriptorIndex ← u16
  let descriptor ← r.ask .utf8 descriptorIndex
  let attributes ← counted nested
  pure { access, name, descriptor, attributes }

/-- Read the parts of a member and make it of them; the attributes it ignores are
reported first. -/
def decodeAs (make : MemberParts k → α) (ignored : String → List Attribute → List Event)
    (r : Resolver) (nested : Decoder Attribute) : Decoder α := do
  let parts ← decode k r nested
  notes (ignored parts.name parts.attributes)
  pure (make parts)

end MemberParts

end ClassOutline
