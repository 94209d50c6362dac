import ClassOutline.Attribute.Basic

/-!
Decoding attributes.

The name of an attribute decides how its payload is read. Payloads that are
understood are read field by field, each field by its own size, and the declared
length plays no part; all others are skipped by exactly that length. A marker
attribute has no payload, but one that declares a length is only refused in strict
mode, after its payload has been skipped.

Attributes nest through method bodies. Each level uses up bytes, so the number of
unread bytes bounds the depth: a decoder told that bound by `Decoder.withUnread`
never comes to its end before the bytes do.
-/

set_option autoImplicit false

namespace ClassOutline

open Decoder

/-! ## Frames -/

/-- What stands in front of the payload of an attribute. -/
structure Frame where
  name : String
  length : UInt32

/-- Read a frame. -/
def Frame.decode (r : Resolver) : Decoder Frame := do
  let index ← u16
  let name ← r.ask .utf8 index
  let length ← u32
  note (.attributeFrame name length)
  pure { name, length }

/-! ## Parts of a method body -/

/-- Read what a handler catches. Index 0 is everything, and is not looked up. -/
def Handler.decodeCatchType (r : Resolver) : Decoder String := do
  let index ← u16
  if index = 0 then pure anyClass else r.ask .className index

/-- Read an entry of an exception table. -/
def Handler.decode (r : Resolver) : Decoder (Handler String) := do
  let startPc ← u16
  let endPc ← u16
  let handlerPc ← u16
  let catchType ← decodeCatchType r
  pure { startPc, endPc, handlerPc, catchType }

/-- Read a method body, whose attributes `nested` reads. -/
def Code.decodeWith (r : Resolver) (nested : Decoder Attribute) :
    Decoder (Code String Attribute) := do
  let maxStack ← u16
  let maxLocals ← u16
  let length ← u32
  let bytecode ← take length.toNat
  let handlers ← counted (Handler.decode r)
  let attributes ← counted nested
  pure { maxStack, maxLocals, bytecode, handlers, attributes }

/-! ## Payloads -/

namespace Attribute

/-- Skip the payload of a marker, and refuse it in strict mode if there is any. -/
def decodeMarker (settings : Settings) (kind : AttributeKind) (length : UInt32)
    (marker : Attribute) : Decoder Attribute := do
  skip length.toNat
  if length = 0 then pure marker
  else
    note (.markerPayload kind.name length)
    if settings.strict then
      fail (.malformedAttribute kind.name s!"expected length 0, found {length.toNat}")
    else pure marker

/-- Read the payload of an attribute of a known kind. -/
def decodeKnown (settings : Settings) (r : Resolver) (nested : Decoder Attribute)
    (length : UInt32) : AttributeKind → Decoder Attribute
  | .code => do
      let body ← Code.decodeWith r nested
      pure (code body)
  | .constantValue => do
      let index ← u16
      let text ← r.ask .literal index
      pure (constantValue text)
  | .deprecated => decodeMarker settings .deprecated length deprecated
  | .synthetic => decodeMarker settings .synthetic length synthetic
  | .exceptions => do
      let names ← counted do
        let index ← u16
        r.ask .className index
      pure (exceptions names)
  | .sourceFile => do
      let index ← u16
      let name ← r.ask .utf8 index
      pure (sourceFile name)
  | .lineNumberTable => do
      skip length.toNat
      pure lineNumberTable
  | .localVariableTable => do
      skip length.toNat
      pure localVariableTable

/-- Skip the payload of an attribute of unknown name. -/
def decodeUnknown (name : String) (length : UInt32) : Decoder Attribute := do
  note (.attributeSkipped name length)
  skip length.toNat
  pure (unknown name length)

/-- Read the payload that a frame calls for. -/
def decodePayload (settings : Settings) (r : Resolver) (nested : Decoder Attribute)
    (frame : Frame) : Decoder Attribute :=
  match AttributeKind.ofName? frame.name with
  | some kind => decodeKnown settings r nested frame.length kind
  | none => decodeUnknown frame.name frame.length

/-! ## Attributes -/

/-- Read an attribute, whose own attributes `nested` reads. -/
def decodeWith (settings : Settings) (r : Resolver) (nested : Decoder Attribute) :
    Decoder Attribute := do
  let frame ← Frame.decode r
  decodePayload settings r nested frame

/-- Read an attribute that nests less than `depth` deep. -/
def decodeWithin (settings : Settings) (r : Resolver) : Nat → Decoder Attribute
  | 0 => exhausted
  | depth + 1 => decodeWith settings r (decodeWithin settings r depth)

/-- Read an attribute. -/
def decode (settings : Settings) (r : Resolver) : Decoder Attribute :=
  withUnread (decodeWithin settings r)

/-- Read a list of attributes. -/
def decodeList (settings : Settings) (r : Resolver) : Decoder (List Attribute) :=
  withUnread fun depth => counted (decodeWithin settings r depth)

end Attribute

/-- Read a method body. -/
def Code.decode (settings : Settings) (r : Resolver) : Decoder (Code String Attribute) :=
  withUnread fun depth => Code.decodeWith r (Attribute.decodeWithin settings r depth)

end ClassOutline
