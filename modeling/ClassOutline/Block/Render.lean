import ClassOutline.Block.Tree
import ClassOutline.Text.Basic

/-!
The text of a tree of blocks.

A block is its opening, its children one level deeper, and its closing. An `if` or
`for` with exactly one child goes without braces. The text comes in pieces, each
with the block it belongs to and the part it plays there. One walk makes them and hands
each on as soon as it is made (`BlockTree.walkWithin`); the list of the texts and the
rendered text are two ways to collect them.

Children stand behind their parents, so a walk that starts anywhere is no deeper
than the tree has blocks.
-/

set_option autoImplicit false

namespace ClassOutline

/-! ## Openings and closings -/

/-- The line of a label. -/
def labelText (indent : String) (label : List Char) : String :=
  let label := String.ofList (trimBlanks label)
  "\n" ++ indent ++ (if label == "default" then "default: " else "case " ++ label ++ ": ")

namespace Block

/-- The text that opens a block at an indentation. -/
def entry (b : Block) (indent : String) : String :=
  let brace := if b.isSimple then "\n" else "\x7b\n"
  match b.kind with
  | .ifThen condition => "if (" ++ condition ++ ") " ++ brace
  | .forLoop init test update => "for (" ++ init ++ ";" ++ test ++ ";" ++ update ++ ") " ++ brace
  | .doWhile _ _ _ => "do \x7b\n"
  | .switchOn expression => "switch (" ++ expression ++ ") \x7b\n"
  | .caseOf labels => String.join ((cutAt ',' labels.toList).map (labelText indent)) ++ "\n"

/-- The text that closes a block at an indentation. -/
def exit (b : Block) (indent : String) : String :=
  match b.kind with
  | .ifThen _ | .forLoop _ _ _ => if b.isSimple then "\n" else "\x7d\n"
  | .doWhile left operator right =>
      "\x7d while (" ++ left ++ " " ++ operator ++ " " ++ right ++ ");\n"
  | .switchOn _ => "\n" ++ indent ++ "\x7d\n"
  | .caseOf _ => ""

end Block

/-! ## Pieces -/

/-- A piece of text, the block it belongs to, and the part it plays there. -/
structure Piece where
  block : Nat
  part : Role
  text : String
  deriving DecidableEq, Repr

namespace BlockTree

/-- Walk over a block that nests less than `depth` deep, and hand every piece to `emit`. -/
def walkWithin {σ : Type} (t : BlockTree) (unit : String) (emit : σ → Piece → σ) :
    Nat → Nat → String → σ → σ
  | 0, _, _, out => out
  | depth + 1, id, indent, out =>
      match t.get? id with
      | none => out
      | some b =>
          let inner := indent ++ unit
          let opened := emit out ⟨id, .entry, indent ++ b.entry indent⟩
          let filled := b.children.foldl (fun out child =>
            match child with
            | .block child => t.walkWithin unit emit depth child inner out
            | .statement line => emit out ⟨id, .body, inner ++ line.text ++ "\n"⟩) opened
          emit filled ⟨id, .exit, indent ++ b.exit indent⟩

/-- The texts of the pieces of a block and all it lists, at an indentation. -/
def flatten (t : BlockTree) (unit : String) (id : Nat) (indent : String) : Option (List String) :=
  if id < t.size then
    some (t.walkWithin unit (fun out piece => out.push piece.text) t.size id indent #[]).toList
  else none

/-- The text of a block and all it lists, at an indentation. -/
def render (t : BlockTree) (unit : String) (id : Nat) (indent : String) : Option String :=
  if id < t.size then
    some (t.walkWithin unit (fun out piece => out ++ piece.text) t.size id indent "")
  else none

end BlockTree

end ClassOutline
