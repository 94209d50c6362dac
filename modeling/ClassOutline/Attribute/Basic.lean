import ClassOutline.Pool.Lookup

/-!
Attributes of classes, fields and methods, decoded.

An attribute in a class file is a frame: a name, a length and a payload. Eight
names are known here; of these two have a payload that is skipped like that of an
unknown name. A `Code` attribute is a method body and holds attributes of its own,
so attributes form a tree.

`Handler` and `Code` are generic: in decoded attributes a handler names the class
it catches and a body holds decoded attributes, while in what is written
(`ClassOutline.Attribute.Record`) both are still in terms of the constant pool.

Classes, fields and methods each take up some of the attributes they carry and ignore
the others. `Attribute.Meaning` is the table of what is taken up, and both the effect of
an attribute and the report on one that is ignored are read off it.
-/

set_option autoImplicit false

namespace ClassOutline

/-! ## Method bodies -/

/-- An entry of an exception table: from `startPc` to before `endPc`, exceptions of
`catchType` are handled at `handlerPc`. -/
structure Handler (κ : Type) where
  startPc : UInt16
  endPc : UInt16
  handlerPc : UInt16
  catchType : κ
  deriving DecidableEq, Repr

/-- Does a handler catch everything? -/
def Handler.catchesAny (h : Handler String) : Bool := h.catchType == anyClass

/-- A method body, whose handlers catch a `κ` and which holds attributes `α`. -/
structure Code (κ α : Type) where
  maxStack : UInt16
  maxLocals : UInt16
  bytecode : List UInt8
  handlers : List (Handler κ)
  attributes : List α
  deriving Repr

/-! ## Names -/

/-- The known attributes. -/
inductive AttributeKind where
  | code
  | constantValue
  | deprecated
  | synthetic
  | exceptions
  | sourceFile
  | lineNumberTable
  | localVariableTable
  deriving DecidableEq, Repr

namespace AttributeKind

def name : AttributeKind → String
  | code => "Code"
  | constantValue => "ConstantValue"
  | deprecated => "Deprecated"
  | synthetic => "Synthetic"
  | exceptions => "Exceptions"
  | sourceFile => "SourceFile"
  | lineNumberTable => "LineNumberTable"
  | localVariableTable => "LocalVariableTable"

def all : List AttributeKind :=
  [code, constantValue, deprecated, synthetic, exceptions, sourceFile, lineNumberTable,
   localVariableTable]

/-- The known attribute of a name. -/
def ofName? (name : String) : Option AttributeKind :=
  all.find? (·.name == name)

end AttributeKind

/-! ## Attributes -/

/-- A decoded attribute. -/
inductive Attribute where
  | code (body : Code String Attribute)
  /-- the source text of a field's value -/
  | constantValue (text : String)
  | deprecated
  | synthetic
  /-- the dotted names of the exceptions a method declares -/
  | exceptions (names : List String)
  | sourceFile (name : String)
  | lineNumberTable
  | localVariableTable
  /-- an attribute of another name, and its length -/
  | unknown (name : String) (length : UInt32)
  deriving Repr

namespace Attribute

def name : Attribute → String
  | code _ => AttributeKind.code.name
  | constantValue _ => AttributeKind.constantValue.name
  | deprecated => AttributeKind.deprecated.name
  | synthetic => AttributeKind.synthetic.name
  | exceptions _ => AttributeKind.exceptions.name
  | sourceFile _ => AttributeKind.sourceFile.name
  | lineNumberTable => AttributeKind.lineNumberTable.name
  | localVariableTable => AttributeKind.localVariableTable.name
  | unknown name _ => name

/-! ## What attributes mean -/

/-- What attributes mean to something that carries them: the change that an attribute
makes there, if it means anything. -/
abbrev Meaning (σ : Type) : Type := Attribute → Option (σ → σ)

namespace Meaning

variable {σ : Type} (meaning : Meaning σ)

/-- Take up an attribute. -/
def apply (x : σ) (a : Attribute) : σ :=
  match meaning a with
  | some change => change x
  | none => x

/-- The reports on attributes that mean nothing, which are ignored. -/
def ignored (holder : Holder) (attributes : List Attribute) : List Event :=
  (attributes.filter (meaning · |>.isNone)).map fun a => .attributeIgnored a.name holder

/-- An attribute that is ignored leaves what carries it alone. -/
theorem apply_of_eq_none {a : Attribute} (ignored : meaning a = none) (x : σ) :
    meaning.apply x a = x := by
  rw [apply, ignored]

end Meaning

end Attribute

end ClassOutline
