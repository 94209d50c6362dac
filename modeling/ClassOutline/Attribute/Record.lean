import ClassOutline.Attribute.Basic

/-!
Writing attributes.

What is written is in terms of a constant pool: a `Record` is a frame whose name is
an index, and an `IndexedAttribute` is an attribute whose texts are indices. To
write one is to add its name to the pool, always as a new constant, and to put its
payload into a record; the attributes of a method body go first, so their names
stand in front of the name `Code`.
-/

set_option autoImplicit false

namespace ClassOutline

/-! ## Frames -/

/-- An attribute as it stands in a class file. -/
structure Record where
  name : UInt16
  info : List UInt8
  deriving DecidableEq, Repr

/-- A frame: the index of the name, the length of the payload, the payload. -/
def Record.encode (record : Record) : List UInt8 :=
  bytes16 record.name ++ bigEndian 4 record.info.length ++ record.info

/-! ## Payloads -/

def Handler.encode (h : Handler UInt16) : List UInt8 :=
  bytes16 h.startPc ++ bytes16 h.endPc ++ bytes16 h.handlerPc ++ bytes16 h.catchType

def Code.encode (code : Code UInt16 Record) : List UInt8 :=
  bytes16 code.maxStack ++ bytes16 code.maxLocals
    ++ bigEndian 4 code.bytecode.length ++ code.bytecode
    ++ countedBytes Handler.encode code.handlers
    ++ countedBytes Record.encode code.attributes

/-! ## Attributes with indices -/

/-- An attribute in terms of a constant pool. -/
inductive IndexedAttribute where
  | constantValue (value : UInt16)
  | sourceFile (name : UInt16)
  | exceptions (classes : List UInt16)
  | deprecated
  | synthetic
  /-- pairs of a program counter and a line -/
  | lineNumberTable (lines : List (UInt16 × UInt16))
  | code (maxStack maxLocals : UInt16) (bytecode : List UInt8)
      (handlers : List (Handler UInt16)) (attributes : List IndexedAttribute)
  /-- a record that is written as it is -/
  | framed (record : Record)
  deriving Repr

/-- Add a name to the pool and make the record of a payload. -/
def Pool.named (p : Pool) (kind : AttributeKind) (info : List UInt8) : Record × Pool :=
  let (index, p) := p.pushUtf8 kind.name
  (⟨index, info⟩, p)

mutual

/-- The record of an attribute, and the pool with its names. -/
def IndexedAttribute.toRecord (p : Pool) : IndexedAttribute → Record × Pool
  | .constantValue value => p.named .constantValue (bytes16 value)
  | .sourceFile name => p.named .sourceFile (bytes16 name)
  | .exceptions classes => p.named .exceptions (countedBytes bytes16 classes)
  | .deprecated => p.named .deprecated []
  | .synthetic => p.named .synthetic []
  | .lineNumberTable lines =>
      p.named .lineNumberTable
        (countedBytes (fun (pc, line) => bytes16 pc ++ bytes16 line) lines)
  | .code maxStack maxLocals bytecode handlers attributes =>
      let (records, p) := IndexedAttribute.toRecords p attributes
      p.named .code
        (Code.encode { maxStack, maxLocals, bytecode, handlers, attributes := records })
  | .framed record => (record, p)

/-- The records of a list of attributes, and the pool with all their names. -/
def IndexedAttribute.toRecords (p : Pool) : List IndexedAttribute → List Record × Pool
  | [] => ([], p)
  | first :: rest =>
      let (record, p) := IndexedAttribute.toRecord p first
      let (records, p) := IndexedAttribute.toRecords p rest
      (record :: records, p)

end

end ClassOutline
