import ClassOutline.Member

/-!
Methods.

A method starts out with its flags, name and descriptor, and takes up the
attributes that mean something on a method (`Method.meaning`). A body sets sizes
and bytecode and adds its handlers to those already there; the attributes of the
body are not kept.
-/

set_option autoImplicit false

namespace ClassOutline

structure Method where
  access : Access .ofMethod
  name : String
  descriptor : String
  maxStack : UInt16 := 0
  maxLocals : UInt16 := 0
  /-- absent on methods without a body -/
  bytecode : Option (List UInt8) := none
  handlers : List (Handler String) := []
  /-- the exceptions the method declares -/
  throws : List String := []
  deprecated : Bool := false
  synthetic : Bool := false
  deriving DecidableEq, Repr

namespace Method

/-! ## Taking up a body -/

def setMaxStack (method : Method) (size : UInt16) : Method := { method with maxStack := size }

def setMaxLocals (method : Method) (size : UInt16) : Method := { method with maxLocals := size }

def setBytecode (method : Method) (bytecode : List UInt8) : Method :=
  { method with bytecode := some bytecode }

/-- Add handlers behind those already there. -/
def addHandlers (method : Method) (handlers : List (Handler String)) : Method :=
  { method with handlers := method.handlers ++ handlers }

/-- Add a handler behind those already there. -/
def addHandler (method : Method) (handler : Handler String) : Method :=
  method.addHandlers [handler]

/-- A table of handlers is added one handler after the other. -/
theorem addHandlers_eq_foldl (method : Method) (handlers : List (Handler String)) :
    method.addHandlers handlers = handlers.foldl addHandler method := by
  induction handlers generalizing method with
  | nil => simp [addHandlers]
  | cons handler rest ih => simp [← ih, addHandler, addHandlers]

/-- Take up a body. -/
def populate (method : Method) (body : Code String Attribute) : Method :=
  (((method.setMaxStack body.maxStack).setMaxLocals body.maxLocals).setBytecode
    body.bytecode).addHandlers body.handlers

/-! ## Attributes -/

/-- What attributes mean on a method; the last of several lists of exceptions counts. -/
def meaning : Attribute.Meaning Method
  | .code body => some fun method => method.populate body
  | .exceptions names => some fun method => { method with throws := names }
  | .deprecated => some fun method => { method with deprecated := true }
  | .synthetic => some fun method => { method with synthetic := true }
  | _ => none

/-- Take up an attribute. -/
def apply (method : Method) (a : Attribute) : Method := meaning.apply method a

/-- The reports on attributes that are ignored. -/
def ignored (name : String) (attributes : List Attribute) : List Event :=
  meaning.ignored (.method name) attributes

end Method

/-- The method that the attributes make of a new one, applied in order. -/
def MemberParts.method (parts : MemberParts .ofMethod) : Method :=
  parts.attributes.foldl Method.apply
    { access := parts.access, name := parts.name, descriptor := parts.descriptor }

namespace Method

/-- Read a method, whose attributes `nested` reads. -/
def decodeWith (r : Resolver) (nested : Decoder Attribute) : Decoder Method :=
  MemberParts.decodeAs MemberParts.method ignored r nested

/-! ## Source text -/

/-- A parameter, named by its position. -/
def parameterText (i : Nat) (type : FieldType) : String := s!"{type.source} arg{i}"

/-- The parameters of a method. -/
def parameterSource (types : List FieldType) : String :=
  String.intercalate ", " (types.mapIdx parameterText)

/-- The signature of a method, such as `public static void main(java.lang.String[]
arg0)`; the bare descriptor stands behind the name if it is none. -/
def signature (method : Method) : String :=
  let core := match DescriptorReader.complete MethodDescriptor.read method.descriptor with
    | .ok d => d.resultSource ++ " " ++ method.name ++ "(" ++ parameterSource d.parameters ++ ")"
    | .error _ => method.name ++ method.descriptor
  let throws :=
    if method.throws.isEmpty then "" else " throws " ++ String.intercalate ", " method.throws
  method.access.leadingText ++ core ++ throws

end Method

end ClassOutline
