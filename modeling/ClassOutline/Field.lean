import ClassOutline.Member

/-!
Fields.

A field starts out with its flags, name and descriptor, and takes up the attributes
that mean something on a field; the others are ignored (`Field.meaning`).
-/

set_option autoImplicit false

namespace ClassOutline

structure Field where
  access : Access .ofField
  name : String
  descriptor : String
  /-- the source text of the value of a constant field -/
  constantValue : Option String := none
  deprecated : Bool := false
  synthetic : Bool := false
  deriving DecidableEq, Repr

namespace Field

/-! ## Attributes -/

/-- What attributes mean on a field; the last of several values counts. -/
def meaning : Attribute.Meaning Field
  | .constantValue text => some fun field => { field with constantValue := some text }
  | .deprecated => some fun field => { field with deprecated := true }
  | .synthetic => some fun field => { field with synthetic := true }
  | _ => none

/-- Take up an attribute. -/
def apply (field : Field) (a : Attribute) : Field := meaning.apply field a

/-- The reports on attributes that are ignored. -/
def ignored (name : String) (attributes : List Attribute) : List Event :=
  meaning.ignored (.field name) attributes

end Field

/-- The field that the attributes make of a new one, applied in order. -/
def MemberParts.field (parts : MemberParts .ofField) : Field :=
  parts.attributes.foldl Field.apply
    { access := parts.access, name := parts.name, descriptor := parts.descriptor }

namespace Field

/-- Read a field, whose attributes `nested` reads. -/
def decodeWith (r : Resolver) (nested : Decoder Attribute) : Decoder Field :=
  MemberParts.decodeAs MemberParts.field ignored r nested

/-! ## Source text -/

/-- The type of a field as source code has it, or the descriptor if it is none. -/
def typeSource (field : Field) : String :=
  match DescriptorReader.complete FieldType.read field.descriptor with
  | .ok type => type.source
  | .error _ => field.descriptor

/-- The declaration of a field, such as `public static final int ANSWER = 42;`. -/
def declaration (field : Field) : String :=
  let value := match field.constantValue with
    | some text => " = " ++ text
    | none => ""
  field.access.leadingText ++ field.typeSource ++ " " ++ field.name ++ value ++ ";"

end Field

end ClassOutline
