import ClassOutline.Attribute.Record
import ClassOutline.Class

/-!
Class files as they are written: everything but the pool is in terms of it.

`ClassFile.assemble` makes a class file from attributes with indices. The names of
the attributes go into the pool in the order fields, methods, class.
-/

set_option autoImplicit false

namespace ClassOutline

/-- A field or a method. -/
structure Member (k : AccessKind) (α : Type) where
  access : Access k
  name : UInt16
  descriptor : UInt16
  attributes : List α

def Member.encode {k : AccessKind} (m : Member k Record) : List UInt8 :=
  m.access.encode ++ bytes16 m.name ++ bytes16 m.descriptor
    ++ countedBytes Record.encode m.attributes

structure ClassFile where
  version : Version
  pool : Pool
  access : Access .ofClass
  thisClass : UInt16
  superClass : UInt16
  interfaces : List UInt16
  fields : List (Member .ofField Record)
  methods : List (Member .ofMethod Record)
  attributes : List Record

namespace ClassFile

def encode (file : ClassFile) : List UInt8 :=
  bytes32 classMagic ++ file.version.encode ++ file.pool.encode ++ file.access.encode
    ++ bytes16 file.thisClass ++ bytes16 file.superClass
    ++ countedBytes bytes16 file.interfaces
    ++ countedBytes Member.encode file.fields
    ++ countedBytes Member.encode file.methods
    ++ countedBytes Record.encode file.attributes

end ClassFile

/-! ## Assembling -/

/-- Put the attributes of members into records, one member after the other. -/
def Member.toRecords {k : AccessKind} (p : Pool) :
    List (Member k IndexedAttribute) → List (Member k Record) × Pool
  | [] => ([], p)
  | m :: rest =>
      let (attributes, p) := IndexedAttribute.toRecords p m.attributes
      let (rest, p) := Member.toRecords p rest
      ({ access := m.access, name := m.name, descriptor := m.descriptor, attributes } :: rest, p)

/-- A class file whose attributes are not written yet. -/
structure ClassDraft where
  version : Version
  pool : Pool
  access : Access .ofClass
  thisClass : UInt16
  superClass : UInt16
  interfaces : List UInt16
  fields : List (Member .ofField IndexedAttribute)
  methods : List (Member .ofMethod IndexedAttribute)
  attributes : List IndexedAttribute

/-- Write all attributes. -/
def ClassFile.assemble (draft : ClassDraft) : ClassFile :=
  let (fields, pool) := Member.toRecords draft.pool draft.fields
  let (methods, pool) := Member.toRecords pool draft.methods
  let (attributes, pool) := IndexedAttribute.toRecords pool draft.attributes
  { version := draft.version
    access := draft.access
    thisClass := draft.thisClass
    superClass := draft.superClass
    interfaces := draft.interfaces
    pool, fields, methods, attributes }

end ClassOutline
