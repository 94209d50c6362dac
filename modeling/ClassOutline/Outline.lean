import ClassOutline.Class

/-!
The outline of a class: its head, its fields and its methods as source code has
them, with a summary of each body.
-/

set_option autoImplicit false

namespace ClassOutline.Outline

/-- The lines of a handler in a summary. -/
def handlerLine (unit : String) (h : Handler String) : String :=
  s!"{unit}{unit}// [{h.startPc.toNat}, {h.endPc.toNat}) -> {h.handlerPc.toNat} catches {h.catchType}\n"

/-- A method, behind an empty line. -/
def methodText (unit : String) (method : Method) : String :=
  let head := "\n" ++ unit ++ method.signature
  match method.bytecode with
  | none => head ++ ";\n"
  | some bytecode =>
      let sizes := s!"max_stack = {method.maxStack.toNat}, max_locals = {method.maxLocals.toNat}"
      head ++ " \x7b\n"
        ++ s!"{unit}{unit}// {sizes}, {bytecode.length} bytes of bytecode\n"
        ++ String.join (method.handlers.map (handlerLine unit))
        ++ unit ++ "\x7d\n"

/-- What stands in front of a class. -/
def preamble (c : Class) : String :=
  (match c.sourceFile with
    | some name => s!"// Compiled from {name}\n"
    | none => "")
    ++ s!"// Class file version {c.version.text}\n"
    ++ (if c.deprecated then "@Deprecated\n" else "")

/-- The outline of a class, with `settings.indentUnit` in front of its members. -/
def text (settings : Settings) (c : Class) : String :=
  let unit := settings.indentUnit
  preamble c ++ c.declaration ++ " \x7b\n"
    ++ String.join (c.fields.map fun field => unit ++ field.declaration ++ "\n")
    ++ String.join (c.methods.map (methodText unit))
    ++ "\x7d\n"

end ClassOutline.Outline
