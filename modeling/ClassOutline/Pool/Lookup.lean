import ClassOutline.Descriptor
import ClassOutline.Pool.Basic
import ClassOutline.Pool.Literal

/-!
Lookups in a constant pool.

A decoder never looks into a pool itself: it asks one of three questions of an
index, and a `Resolver` answers them with text or an error. `Pool.resolver` is the
one that answers from a pool; index 0 is no class there, and its name is `any`.
-/

set_option autoImplicit false

namespace ClassOutline

/-- The name that stands for every class. -/
def anyClass : String := "any"

/-- Answers to the questions of a decoder. -/
abbrev Resolver : Type := Lookup → UInt16 → Except Error String

/-- Ask a resolver, and keep the question in the journal. -/
def Resolver.ask (r : Resolver) (question : Lookup) (index : UInt16) : Decoder String := do
  Decoder.note (.lookup question index)
  Decoder.ofExcept (r question index)

namespace Pool

/-- The text at an index. -/
def utf8 (p : Pool) (index : UInt16) : Except Error String :=
  match p.get? index with
  | some (.utf8 text) => .ok text
  | _ => .error (.unresolved index .utf8)

/-- The dotted name of the class at an index. -/
def className (p : Pool) (index : UInt16) : Except Error String :=
  if index = 0 then .ok anyClass
  else
    match p.get? index with
    | some (.classRef name) => (p.utf8 name).map dotted
    | _ => .error (.unresolved index .classRef)

/-- The source text of the literal at an index. -/
def literal (p : Pool) (index : UInt16) : Except Error String :=
  match p.get? index with
  | some (.integer value) => .ok (Literal.int value)
  | some (.long value) => .ok (Literal.long value)
  | some (.float bits) => .ok (Literal.float bits)
  | some (.double bits) => .ok (Literal.double bits)
  | some (.stringRef text) => (p.utf8 text).map Quoted.literal
  | _ => .error (.unresolved index .literal)

/-- The answers of a pool. -/
def resolver (p : Pool) : Resolver
  | .utf8 => p.utf8
  | .className => p.className
  | .literal => p.literal

end Pool

end ClassOutline
