import ClassOutline.Decimal.Binary
import ClassOutline.Stream.Decoder
import ClassOutline.Text.ModifiedUtf8

/-!
Constants, the entries of a constant pool.

A constant is a tag and a payload of the shape the tag says. Floating point
constants are kept as bits, so equality of constants tells all of them apart;
`Constant.same` compares them as numbers instead. Constants of type `long` and
`double` take two slots of a pool.
-/

set_option autoImplicit false

namespace ClassOutline

/-- An entry of a constant pool; `UInt16` arguments are indices of other entries,
except for the number of a bootstrap method. -/
inductive Constant where
  | utf8 (text : String)
  | integer (value : Int32)
  | float (bits : UInt32)
  | long (value : Int64)
  | double (bits : UInt64)
  | classRef (name : UInt16)
  | stringRef (text : UInt16)
  | fieldRef (owner nameAndType : UInt16)
  | methodRef (owner nameAndType : UInt16) (isInterface : Bool)
  | nameAndType (name descriptor : UInt16)
  | methodHandle (referenceKind : UInt8) (member : UInt16)
  | methodType (descriptor : UInt16)
  | dynamic (bootstrapMethod nameAndType : UInt16)
  | invokeDynamic (bootstrapMethod nameAndType : UInt16)
  | moduleRef (name : UInt16)
  | packageRef (name : UInt16)
  deriving DecidableEq, Repr

namespace Constant

/-- How many slots of a pool a constant takes. -/
def width : Constant → Nat
  | long _ | double _ => 2
  | _ => 1

theorem width_pos (k : Constant) : 0 < k.width := by
  cases k <;> simp [width]

def tag : Constant → UInt8
  | utf8 _ => 1
  | integer _ => 3
  | float _ => 4
  | long _ => 5
  | double _ => 6
  | classRef _ => 7
  | stringRef _ => 8
  | fieldRef _ _ => 9
  | methodRef _ _ isInterface => if isInterface then 11 else 10
  | nameAndType _ _ => 12
  | methodHandle _ _ => 15
  | methodType _ => 16
  | dynamic _ _ => 17
  | invokeDynamic _ _ => 18
  | moduleRef _ => 19
  | packageRef _ => 20

/-! ## Writing -/

/-- The bytes of a constant behind its tag. -/
def payload : Constant → List UInt8
  | utf8 text =>
      let bytes := ModifiedUtf8.encode text
      bigEndian 2 bytes.length ++ bytes
  | integer value => bytes32 value.toUInt32
  | float bits => bytes32 bits
  | long value => bytes64 value.toUInt64
  | double bits => bytes64 bits
  | classRef index | stringRef index | methodType index | moduleRef index | packageRef index =>
      bytes16 index
  | fieldRef owner signature | methodRef owner signature _ =>
      bytes16 owner ++ bytes16 signature
  | nameAndType name descriptor => bytes16 name ++ bytes16 descriptor
  | methodHandle referenceKind member => bytes8 referenceKind ++ bytes16 member
  | dynamic bootstrapMethod signature | invokeDynamic bootstrapMethod signature =>
      bytes16 bootstrapMethod ++ bytes16 signature

def encode (k : Constant) : List UInt8 :=
  bytes8 k.tag ++ k.payload

/-! ## Reading -/

open Decoder

/-- A constant that is one index. -/
def decodeIndex (make : UInt16 → Constant) : Decoder Constant := do
  let index ← u16
  pure (make index)

/-- A constant that is a pair of indices. -/
def decodePair (make : UInt16 → UInt16 → Constant) : Decoder Constant := do
  let first ← u16
  let second ← u16
  pure (make first second)

/-- Text: its length in bytes, then the bytes. -/
def decodeText : Decoder Constant := do
  let length ← u16
  let bytes ← take length.toNat
  pure (utf8 (ModifiedUtf8.decode bytes))

/-- The payload that a tag calls for. -/
def decodePayload (tag : UInt8) : Decoder Constant :=
  match tag.toNat with
  | 1 => decodeText
  | 3 => do
      let value ← i32
      pure (integer value)
  | 4 => do
      let bits ← u32
      pure (float bits)
  | 5 => do
      let value ← i64
      pure (long value)
  | 6 => do
      let bits ← u64
      pure (double bits)
  | 7 => decodeIndex classRef
  | 8 => decodeIndex stringRef
  | 9 => decodePair fieldRef
  | 10 => decodePair (methodRef · · false)
  | 11 => decodePair (methodRef · · true)
  | 12 => decodePair nameAndType
  | 15 => do
      let referenceKind ← u8
      let member ← u16
      pure (methodHandle referenceKind member)
  | 16 => decodeIndex methodType
  | 17 => decodePair dynamic
  | 18 => decodePair invokeDynamic
  | 19 => decodeIndex moduleRef
  | 20 => decodeIndex packageRef
  | _ => fail (.unknownTag tag)

def decode : Decoder Constant := do
  let tag ← u8
  decodePayload tag

/-! ## Comparing as numbers -/

/-- Equality that takes floating point constants as numbers. -/
def same : Constant → Constant → Bool
  | float a, float b =>
      (BinaryFormat.single.read a.toNat).same (BinaryFormat.single.read b.toNat)
  | double a, double b =>
      (BinaryFormat.double.read a.toNat).same (BinaryFormat.double.read b.toNat)
  | a, b => a == b

end Constant

end ClassOutline
