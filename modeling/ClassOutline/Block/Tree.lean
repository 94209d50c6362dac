/-!
Trees of structured blocks.

A tree owns its blocks in a row, and a block is known by its place in it. A new
block is always made as the last child of an existing one, so a block stands behind
the block that lists it and under no other. Taking the last child away detaches a
block without forgetting it: its handle goes on to work.

The operations are programs that change one tree in place and answer (`Mutation`). On a
handle that the tree has not handed out there is no answer, and the program stops.
-/

set_option autoImplicit false

namespace ClassOutline

/-! ## Blocks -/

/-- A control construct and the source text that goes into it. -/
inductive BlockKind where
  | ifThen (condition : String)
  | forLoop (init test update : String)
  | doWhile (left operator right : String)
  | switchOn (expression : String)
  /-- the labels are separated by commas -/
  | caseOf (labels : String)
  deriving DecidableEq, Repr

/-- What part of a construct a statement stands for. -/
inductive Role where
  | entry
  | exit
  | body
  deriving DecidableEq, Repr

/-- A line of source text, and the block it was added to. -/
structure Statement where
  text : String
  owner : Nat
  role : Role
  deriving DecidableEq, Repr

/-- What a block lists. -/
inductive Child where
  | block (id : Nat)
  | statement (line : Statement)
  deriving DecidableEq, Repr

/-- A block and its children, in the order of the text. -/
structure Block where
  kind : BlockKind
  children : List Child := []
  deriving DecidableEq, Repr

/-- Does a block have exactly one child? -/
def Block.isSimple (b : Block) : Bool := b.children.length == 1

/-! ## Trees -/

structure BlockTree where
  blocks : Array Block
  deriving DecidableEq, Repr

namespace BlockTree

/-- The tree of one block, whose handle is 0. -/
def ofRoot (kind : BlockKind) : BlockTree := ⟨#[{ kind }]⟩

/-- The number of blocks ever made, which is the handle of the next one. -/
def size (t : BlockTree) : Nat := t.blocks.size

/-- The block of a handle. -/
def get? (t : BlockTree) (id : Nat) : Option Block := t.blocks[id]?

/-- Change the children of a block. -/
def updateChildren (t : BlockTree) (id : Nat) (f : List Child → List Child) : Option BlockTree :=
  if id < t.size then
    some ⟨t.blocks.modify id fun b => { b with children := f b.children }⟩
  else none

/-- The last child of a block, if it has one. -/
def lastChild? (t : BlockTree) (parent : Nat) : Option Child :=
  (t.get? parent).bind (·.children.getLast?)

end BlockTree

/-! ## Programs on a tree -/

/-- A program that changes a tree in place, and gives an answer unless it stops. -/
abbrev Mutation (α : Type) : Type := OptionT (StateM BlockTree) α

namespace Mutation

/-- What a program answers on a tree, and the tree it leaves. -/
def on {α : Type} (program : Mutation α) (t : BlockTree) : Option α × BlockTree :=
  (program.run.run t).run

/-- Change the children of a block, which has to be there. -/
def onChildren (id : Nat) (f : List Child → List Child) : Mutation Unit := do
  let t ← get
  match t.updateChildren id f with
  | some changed => set changed
  | none => failure

/-- List a new block last, then make it. The answer is its handle. -/
def addBlock (parent : Nat) (kind : BlockKind) : Mutation Nat := do
  let t ← get
  onChildren parent (· ++ [.block t.size])
  modify fun listed => ⟨listed.blocks.push { kind }⟩
  pure t.size

/-- Add a line as the last child. -/
def addStatement (parent : Nat) (text : String) (role : Role) : Mutation Unit :=
  onChildren parent (· ++ [.statement { text, owner := parent, role }])

/-- Take away the last child, whatever it is. The answer is that child, if there was one. -/
def removeLastStatement (parent : Nat) : Mutation (Option Child) := do
  let t ← get
  onChildren parent List.dropLast
  pure (t.lastChild? parent)

/-- Take away the last child, whatever it is. -/
def removeLastBlock (parent : Nat) : Mutation Unit := do
  let _ ← removeLastStatement parent

end Mutation

end ClassOutline
