import ClassOutline.Block.Render
import Mathlib.Data.List.Basic

/-!
The pieces of a tree of blocks, as a list.

The renderer's walk does not know what becomes of the pieces it hands on. So whatever is done
with them is done to one list from left to right (`walkWithin_eq_foldl`). That list is
`pieces`; its texts are the flattened output (`flatten_eq`), and its texts put together are
the rendered output (`render_eq`). What is said about output is said about this list.

The walk has a bound on its depth, which the tree knows and a reader of the text does not.
`Walk` is the same recursion over handles with no bound, as a relation: it holds of the pieces
that a walk puts out, if it comes to an end and finds every block it asks for.
-/

set_option autoImplicit false

namespace ClassOutline

/-- The pieces of a child that the block `id` lists, if `below` gives those of a block. -/
def Child.pieces (below : Nat → List Piece) (id : Nat) (inner : String) : Child → List Piece
  | block child => below child
  | statement line => [⟨id, .body, inner ++ line.text ++ "\n"⟩]

namespace BlockTree

/-! ## The list of pieces -/

/-- The pieces of a block that nests less than `depth` deep. -/
def piecesWithin (t : BlockTree) (unit : String) : Nat → Nat → String → List Piece
  | 0, _, _ => []
  | depth + 1, id, indent =>
      match t.get? id with
      | none => []
      | some b =>
          let inner := indent ++ unit
          ⟨id, .entry, indent ++ b.entry indent⟩
            :: b.children.flatMap
                (Child.pieces (fun child => t.piecesWithin unit depth child inner) id inner)
            ++ [⟨id, .exit, indent ++ b.exit indent⟩]

/-- The pieces of a block and all it lists, at an indentation. -/
def pieces (t : BlockTree) (unit : String) (id : Nat) (indent : String) : List Piece :=
  t.piecesWithin unit t.size id indent

/-- The pieces of a child, at the indentation of its block's body. -/
def childPieces (t : BlockTree) (unit : String) (depth id : Nat) (inner : String) :
    Child → List Piece :=
  Child.pieces (fun child => t.piecesWithin unit depth child inner) id inner

/-- A child that is a block has the pieces of its own walk. -/
@[simp] theorem childPieces_block (t : BlockTree) (unit : String) (depth id : Nat) (inner : String)
    (child : Nat) : t.childPieces unit depth id inner (.block child)
      = t.piecesWithin unit depth child inner := rfl

@[simp] theorem childPieces_statement (t : BlockTree) (unit : String) (depth id : Nat)
    (inner : String) (line : Statement) : t.childPieces unit depth id inner (.statement line)
      = [⟨id, .body, inner ++ line.text ++ "\n"⟩] := rfl

/-- The pieces of a block: its opening, those of its children in order, and its closing. -/
theorem piecesWithin_succ {t : BlockTree} {id : Nat} {b : Block} (found : t.get? id = some b)
    (unit : String) (depth : Nat) (indent : String) :
    t.piecesWithin unit (depth + 1) id indent =
      ⟨id, .entry, indent ++ b.entry indent⟩
        :: b.children.flatMap (t.childPieces unit depth id (indent ++ unit))
        ++ [⟨id, .exit, indent ++ b.exit indent⟩] := by
  rw [piecesWithin, found]
  rfl

/-! ## One walk -/

/-- A walk hands on the pieces of its block from left to right, whatever is made of them. -/
theorem walkWithin_eq_foldl {σ : Type} (t : BlockTree) (unit : String) (emit : σ → Piece → σ)
    (depth id : Nat) (indent : String) (out : σ) :
    t.walkWithin unit emit depth id indent out
      = (t.piecesWithin unit depth id indent).foldl emit out := by
  induction depth generalizing id indent out with
  | zero => rfl
  | succ depth ih =>
      cases found : t.get? id with
      | none =>
          rw [walkWithin, piecesWithin, found]
          rfl
      | some b =>
          rw [piecesWithin_succ found, List.cons_append, List.foldl_cons, List.foldl_append,
            List.foldl_flatMap, walkWithin, found]
          -- Between the opening and the closing both go through the same children, and agree on
          -- each of them.
          refine congrArg (emit · _) (List.foldl_ext _ _ _ fun out c _ => ?_)
          cases c with
          | block child => exact ih child (indent ++ unit) out
          | statement line => rfl

/-- Pieces that are collected in an array make up their texts, in order. -/
theorem foldl_push_text (ps : List Piece) (out : Array String) :
    (ps.foldl (fun out piece => out.push piece.text) out).toList
      = out.toList ++ ps.map Piece.text := by
  induction ps generalizing out with
  | nil => simp
  | cons p ps ih => rw [List.foldl_cons, ih, Array.toList_push, List.append_assoc]; rfl

/-- Pieces that are written behind each other make up their texts put together. -/
theorem foldl_append_text (ps : List Piece) (out : String) :
    ps.foldl (fun out piece => out ++ piece.text) out = out ++ String.join (ps.map Piece.text) := by
  induction ps generalizing out with
  | nil => simp
  | cons p ps ih => rw [List.foldl_cons, ih, List.map_cons, String.join_cons, String.append_assoc]

/-- The flattened output is the texts of the pieces. -/
theorem flatten_eq (t : BlockTree) (unit : String) (id : Nat) (indent : String) :
    t.flatten unit id indent =
      if id < t.size then some ((t.pieces unit id indent).map Piece.text) else none := by
  rw [flatten, walkWithin_eq_foldl, foldl_push_text]
  rfl

/-- For a block of the tree there is an output. -/
theorem flatten_of_known {t : BlockTree} {id : Nat} (known : id < t.size) (unit indent : String) :
    t.flatten unit id indent = some ((t.pieces unit id indent).map Piece.text) := by
  rw [flatten_eq, if_pos known]

/-- The rendered text is the pieces put together. -/
theorem render_eq (t : BlockTree) (unit : String) (id : Nat) (indent : String) :
    t.render unit id indent = (t.flatten unit id indent).map String.join := by
  rw [render, flatten_eq, walkWithin_eq_foldl, foldl_append_text, String.empty_append]
  split
  · rfl
  · rfl

/-- So where the pieces are the same, the text is. -/
theorem render_eq_of_flatten_eq {t t' : BlockTree} {unit : String} {id : Nat} {indent : String}
    (flat : t'.flatten unit id indent = t.flatten unit id indent) :
    t'.render unit id indent = t.render unit id indent := by
  rw [render_eq, render_eq, flat]

/-! ## The walk as a relation -/

mutual

/-- The pieces that a walk puts out from a block on, if it comes to an end and finds every
block that it asks for. -/
inductive Walk (t : BlockTree) (unit : String) : Nat → String → List Piece → Prop
  | block {id : Nat} {indent : String} {b : Block} {inside : List Piece} :
      t.get? id = some b → WalkInside t unit id (indent ++ unit) b.children inside →
      Walk t unit id indent (⟨id, .entry, indent ++ b.entry indent⟩ :: inside
        ++ [⟨id, .exit, indent ++ b.exit indent⟩])

/-- The pieces that a walk puts out for children of a block, in order. -/
inductive WalkInside (t : BlockTree) (unit : String) :
    Nat → String → List Child → List Piece → Prop
  | nil {id : Nat} {inner : String} : WalkInside t unit id inner [] []
  | block {id : Nat} {inner : String} {child : Nat} {rest : List Child}
      {first others : List Piece} :
      Walk t unit child inner first → WalkInside t unit id inner rest others →
      WalkInside t unit id inner (.block child :: rest) (first ++ others)
  | statement {id : Nat} {inner : String} {line : Statement} {rest : List Child}
      {others : List Piece} :
      WalkInside t unit id inner rest others →
      WalkInside t unit id inner (.statement line :: rest)
        (⟨id, .body, inner ++ line.text ++ "\n"⟩ :: others)

end

mutual

/-- A walk has one outcome. -/
theorem Walk.unique {t : BlockTree} {unit : String} {id : Nat} {indent : String}
    {ps qs : List Piece} : Walk t unit id indent ps → Walk t unit id indent qs → ps = qs
  | .block found inside, .block found' inside' => by
      rw [found] at found'
      cases found'
      rw [inside.unique inside']

/-- So has a walk over children. -/
theorem WalkInside.unique {t : BlockTree} {unit : String} {id : Nat} {inner : String}
    {children : List Child} {ps qs : List Piece} :
    WalkInside t unit id inner children ps → WalkInside t unit id inner children qs → ps = qs
  | .nil, .nil => rfl
  | .block first rest, .block first' rest' => by
      rw [first.unique first', rest.unique rest']
  | .statement rest, .statement rest' => by
      rw [rest.unique rest']

end

end BlockTree

end ClassOutline
