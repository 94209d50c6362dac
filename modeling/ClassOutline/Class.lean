import ClassOutline.Field
import ClassOutline.Method

/-!
Classes, read from class files.

A class file is read front to back: magic number, version, constant pool, flags,
the class and its superclass, interfaces, fields, methods and attributes. Every
index is looked up as soon as it is read, so the first fault in the file is the one
that is reported.
-/

set_option autoImplicit false

namespace ClassOutline

/-! ## Versions

The minor number comes first. -/

def Version.encode (v : Version) : List UInt8 :=
  bytes16 v.minor ++ bytes16 v.major

def Version.decode : Decoder Version := do
  let minor ← Decoder.u16
  let major ← Decoder.u16
  pure ⟨major, minor⟩

/-! ## Classes -/

/-- The first four bytes of a class file. -/
def classMagic : UInt32 := 0xCAFEBABE

structure Class where
  version : Version
  pool : Pool
  access : Access .ofClass
  /-- the dotted name of the class -/
  name : String
  /-- the dotted name of the superclass, if there is one -/
  superclass : Option String
  interfaces : List String
  fields : List Field
  methods : List Method
  sourceFile : Option String := none
  deprecated : Bool := false
  synthetic : Bool := false

namespace Class

/-! ## Attributes -/

/-- What attributes mean on a class; the last of several source files counts. -/
def meaning : Attribute.Meaning Class
  | .sourceFile name => some fun c => { c with sourceFile := some name }
  | .deprecated => some fun c => { c with deprecated := true }
  | .synthetic => some fun c => { c with synthetic := true }
  | _ => none

/-- Take up an attribute. -/
def apply (c : Class) (a : Attribute) : Class := meaning.apply c a

/-- The reports on attributes that are ignored. -/
def ignored (attributes : List Attribute) : List Event :=
  meaning.ignored .wholeClass attributes

/-! ## Reading -/

open Decoder

/-- Read the index of the class itself, which cannot be 0. -/
def decodeName (r : Resolver) : Decoder String := do
  let index ← u16
  if index = 0 then fail (.unresolved index .classRef) else r.ask .className index

/-- Read the index of the superclass, which is 0 if there is none. -/
def decodeSuperclass (r : Resolver) : Decoder (Option String) := do
  let index ← u16
  if index = 0 then pure none
  else
    let name ← r.ask .className index
    pure (some name)

/-- Read the index of an interface. -/
def decodeInterface (r : Resolver) : Decoder String := do
  let index ← u16
  r.ask .className index

/-- Read a magic number, which has to be that of class files. -/
def decodeMagic : Decoder Unit := do
  let magic ← u32
  if magic = classMagic then pure () else fail (.badMagic magic)

/-- Read what stands behind the constant pool of a class, whose attributes `nested`
reads. -/
def decodeBody (r : Resolver) (nested : Decoder Attribute) (version : Version) (pool : Pool) :
    Decoder Class := do
  let access ← Access.decode .ofClass
  let name ← decodeName r
  let superclass ← decodeSuperclass r
  note (.classHeader name version)
  let interfaces ← counted (decodeInterface r)
  let fields ← counted (Field.decodeWith r nested)
  let methods ← counted (Method.decodeWith r nested)
  let attributes ← counted nested
  notes (ignored attributes)
  pure (attributes.foldl apply
    { version, pool, access, name, superclass, interfaces, fields, methods })

/-- Read a class whose attributes `nested` reads, once it has the answers of the
constant pool. -/
def decodeWith (nested : Resolver → Decoder Attribute) : Decoder Class := do
  decodeMagic
  let version ← Version.decode
  let pool ← Pool.decode
  decodeBody pool.resolver (nested pool.resolver) version pool

/-- Read a class file. -/
def decode (settings : Settings) : Decoder Class :=
  withUnread fun depth => decodeWith fun r => Attribute.decodeWithin settings r depth

/-! ## Source text -/

/-- What a class is, in a word. -/
def keyword (c : Class) : String :=
  if c.access.has Flag.isAnnotation then "@interface"
  else if c.access.has Flag.isInterface then "interface"
  else if c.access.has Flag.isEnum then "enum"
  else "class"

/-- The superclass as a declaration has it: not on interfaces, and not if every
class has it. -/
def superclassSource (c : Class) : String :=
  match c.superclass with
  | some name =>
      if c.access.has Flag.isInterface || name == "java.lang.Object" then ""
      else " extends " ++ name
  | none => ""

/-- The interfaces as a declaration has them. -/
def interfacesSource (c : Class) : String :=
  if c.interfaces.isEmpty then ""
  else
    (if c.access.has Flag.isInterface then " extends " else " implements ")
      ++ String.intercalate ", " c.interfaces

/-- The head of a class, such as `public final class a.B extends a.C`. -/
def declaration (c : Class) : String :=
  c.access.leadingText ++ c.keyword ++ " " ++ c.name ++ c.superclassSource ++ c.interfacesSource

/-! ## Members -/

/-- The first method of a name. -/
def method? (c : Class) (name : String) : Option Method :=
  c.methods.find? (·.name == name)

/-- The first field of a name. -/
def field? (c : Class) (name : String) : Option Field :=
  c.fields.find? (·.name == name)

end Class

end ClassOutline
