import ClassOutline.Proofs.BlockForest

/-!
What the renderer puts out, counted and in order.

The output is compared with the tree. Every block below the start opens once and
closes once, and puts out its lines in between, so there are two pieces for each block and one
for each line. The order of the lines is that of the ways down to them. A way is a list of
places, one for each list of children that is passed, and the lines stand in the lexicographic
order of their ways: depth first, and within a block in the order of insertion. The length of
a way is the number of units in front of the line.
-/

set_option autoImplicit false

namespace ClassOutline

/-! ## Lines and the ways to them -/

/-- A child that is a line. -/
def Child.line? : Child → Option Statement
  | block _ => none
  | statement line => some line

/-- A line, and the places to take on the way down to it. -/
structure PlacedLine where
  way : List Nat
  line : Statement
  deriving DecidableEq, Repr

namespace PlacedLine

/-- One place more at the front of the way. -/
def under (place : Nat) (l : PlacedLine) : PlacedLine := { l with way := place :: l.way }

/-- Which of two lines comes first: the ways to them tell it at the first place where they
part. -/
def Before (a b : PlacedLine) : Prop := List.Lex (· < ·) a.way b.way

/-- The piece of a line: one unit for every place on the way. -/
def piece (unit indent : String) (l : PlacedLine) : Piece :=
  ⟨l.line.owner, .body,
    indent ++ String.join (List.replicate l.way.length unit) ++ l.line.text ++ "\n"⟩

/-- A line that is one place further away is one unit further in. -/
theorem piece_under (unit indent : String) (place : Nat) (l : PlacedLine) :
    (l.under place).piece unit indent = l.piece unit (indent ++ unit) := by
  simp only [piece, under, List.length_cons, List.replicate_succ, String.join_cons,
    String.append_assoc]

end PlacedLine

/-- The lines of a child at its place, if `below` gives those of a block. -/
def Child.placedLines (below : Nat → List PlacedLine) : Child × Nat → List PlacedLine
  | (block child, place) => (below child).map (PlacedLine.under place)
  | (statement line, place) => [⟨[place], line⟩]

namespace BlockTree

variable {t : BlockTree}

/-- The lines that a block lists, in order. -/
def lines (t : BlockTree) (id : Nat) : List Statement := (t.children id).filterMap Child.line?

/-- The line at the end of a way that starts in a block. -/
def lineAt? (t : BlockTree) : Nat → List Nat → Option Statement
  | _, [] => none
  | id, place :: way =>
      match (t.children id)[place]? with
      | some (.block child) => t.lineAt? child way
      | some (.statement line) => if way = [] then some line else none
      | none => none

/-! ## Every block once -/

/-- A walk visits all blocks below its start, and no others. -/
theorem IsForest.mem_visited_iff (forest : t.IsForest) (unit : String) {depth id : Nat}
    (indent : String) (known : id < t.size) (enough : t.size ≤ id + depth) (low : Nat) :
    low ∈ visited (t.piecesWithin unit depth id indent) ↔ t.Below id low := by
  constructor
  · exact (forest.nodup_visited_piecesWithin unit depth id indent known enough).2 low
  · induction depth generalizing id indent with
    | zero => omega
    | succ depth ih =>
        intro below
        rw [visited_piecesWithin known, List.mem_cons, List.mem_flatMap]
        rcases Relation.ReflTransGen.cases_head below with same | ⟨child, lists, below⟩
        · exact .inl same.symm
        · have lower := forest.behind id child (mem_listed.mp lists)
          exact .inr ⟨child, lists, ih (indent ++ unit) lower.2 (by omega) below⟩

/-- The pieces inside a block are those of the blocks it lists and one for each of its lines. -/
theorem length_flatMap_childPieces (t : BlockTree) (unit : String) (depth id : Nat)
    (inner : String) (children : List Child) :
    (children.flatMap (t.childPieces unit depth id inner)).length
      = ((children.filterMap Child.block?).flatMap
          fun child => t.piecesWithin unit depth child inner).length
        + (children.filterMap Child.line?).length := by
  -- A child is a block, with the pieces of that block, or a line, which is one piece.
  induction children with
  | nil => rfl
  | cons c children ih =>
      cases c with
      | block child =>
          have named : (Child.block child).block? = some child := rfl
          have noLine : (Child.block child).line? = none := rfl
          rw [List.flatMap_cons, List.length_append, ih, List.filterMap_cons_some named,
            List.filterMap_cons_none noLine, List.flatMap_cons, List.length_append,
            childPieces_block]
          omega
      | statement line =>
          have unnamed : (Child.statement line).block? = none := rfl
          have isLine : (Child.statement line).line? = some line := rfl
          rw [List.flatMap_cons, List.length_append, ih, List.filterMap_cons_none unnamed,
            List.filterMap_cons_some isLine, List.length_cons, childPieces_statement,
            List.length_singleton]
          omega

/-- What holds of the pieces of each block in a list holds of all of them together. -/
theorem length_flatMap_pieces {pieces : Nat → List Piece} (ids : List Nat)
    (each : ∀ id ∈ ids, (pieces id).length
      = 2 * (visited (pieces id)).length + ((visited (pieces id)).flatMap t.lines).length) :
    (ids.flatMap pieces).length
      = 2 * (ids.flatMap fun id => visited (pieces id)).length
        + ((ids.flatMap fun id => visited (pieces id)).flatMap t.lines).length := by
  induction ids with
  | nil => rfl
  | cons id ids ih =>
      rw [List.forall_mem_cons] at each
      simp only [List.flatMap_cons, List.flatMap_append, List.length_append, each.1, ih each.2]
      omega

/-- Two pieces for each block that is visited, and one for each of its lines. -/
theorem length_piecesWithin (t : BlockTree) (unit : String) (depth id : Nat) (indent : String) :
    (t.piecesWithin unit depth id indent).length
      = 2 * (visited (t.piecesWithin unit depth id indent)).length
        + ((visited (t.piecesWithin unit depth id indent)).flatMap t.lines).length := by
  induction depth generalizing id indent with
  | zero => rfl
  | succ depth ih =>
      by_cases known : id < t.size
      · obtain ⟨b, found⟩ := exists_get? known
        -- Two pieces for the block itself, one for each of its lines, and for the blocks below it
        -- the induction hypothesis.
        have below := length_flatMap_pieces (t.listed id) fun child _ => ih child (indent ++ unit)
        have inside := length_flatMap_childPieces t unit depth id (indent ++ unit) b.children
        rw [← children_of_get? found, ← listed, ← lines] at inside
        rw [visited_piecesWithin known, piecesWithin_succ found, ← children_of_get? found]
        simp only [List.length_append, List.length_cons, List.flatMap_cons, List.length_nil]
        omega
      · rw [piecesWithin, get?_eq_none_iff.mpr (Nat.le_of_not_lt known)]
        rfl

/-! ## Lines in order -/

/-- The lines of a block that nests less than `depth` deep, depth first. -/
def linesWithin (t : BlockTree) : Nat → Nat → List PlacedLine
  | 0, _ => []
  | depth + 1, id => (t.children id).zipIdx.flatMap (Child.placedLines (t.linesWithin depth))

/-- The lines of a child and its place. -/
def childLines (t : BlockTree) (depth : Nat) : Child × Nat → List PlacedLine :=
  Child.placedLines (t.linesWithin depth)

/-- The lines of a block are those in it, with the place of the block in front of their ways. -/
@[simp] theorem childLines_block (t : BlockTree) (depth child place : Nat) :
    t.childLines depth (.block child, place)
      = (t.linesWithin depth child).map (PlacedLine.under place) := rfl

@[simp] theorem childLines_statement (t : BlockTree) (depth : Nat) (line : Statement)
    (place : Nat) : t.childLines depth (.statement line, place) = [⟨[place], line⟩] := rfl

theorem linesWithin_succ (t : BlockTree) (depth id : Nat) :
    t.linesWithin (depth + 1) id = (t.children id).zipIdx.flatMap (t.childLines depth) := rfl

/-- The way to a line of a child begins with the place of the child. -/
theorem exists_way_of_mem_childLines {depth place : Nat} {c : Child} {l : PlacedLine}
    (mem : l ∈ t.childLines depth (c, place)) : ∃ way, l.way = place :: way := by
  cases c with
  | block child =>
      obtain ⟨m, -, rfl⟩ := List.mem_map.mp mem
      exact ⟨m.way, rfl⟩
  | statement line =>
      cases List.mem_singleton.mp mem
      exact ⟨[], rfl⟩

/-- Every line stands before those that follow it in the list. -/
theorem pairwise_linesWithin (t : BlockTree) (depth id : Nat) :
    (t.linesWithin depth id).Pairwise PlacedLine.Before := by
  induction depth generalizing id with
  | zero => exact List.Pairwise.nil
  | succ depth ih =>
      rw [linesWithin_succ, List.pairwise_flatMap]
      constructor
      · -- Within a child the first place on the way is the same.
        rintro ⟨c, place⟩ -
        cases c with
        | block child => exact List.pairwise_map.mpr ((ih child).imp fun earlier => .cons earlier)
        | statement line => exact List.pairwise_singleton _ _
      · -- From one child to the next the first place on the way is larger.
        have places : ((t.children id).zipIdx.map Prod.snd).Pairwise (· < ·) := by
          rw [List.zipIdx_map_snd]
          exact List.pairwise_lt_range' 1
        refine (List.pairwise_map.mp places).imp ?_
        rintro ⟨c, place⟩ ⟨c', place'⟩ less l mem l' mem'
        obtain ⟨way, eq⟩ := exists_way_of_mem_childLines mem
        obtain ⟨way', eq'⟩ := exists_way_of_mem_childLines mem'
        rw [PlacedLine.Before, eq, eq']
        exact .rel less

/-- A way first leads to a child of the block. -/
theorem mem_linesWithin_succ_iff {depth id place : Nat} {way : List Nat} {line : Statement} :
    ⟨place :: way, line⟩ ∈ t.linesWithin (depth + 1) id ↔
      ∃ c, (t.children id)[place]? = some c ∧
        ⟨place :: way, line⟩ ∈ t.childLines depth (c, place) := by
  rw [linesWithin_succ, List.mem_flatMap]
  constructor
  · rintro ⟨⟨c, place'⟩, listed, mem⟩
    obtain ⟨way', eq⟩ := exists_way_of_mem_childLines mem
    cases eq
    exact ⟨c, List.mem_zipIdx_iff_getElem?.mp listed, mem⟩
  · rintro ⟨c, listed, mem⟩
    exact ⟨(c, place), List.mem_zipIdx_iff_getElem?.mpr listed, mem⟩

/-- A way into a block goes on from there. -/
theorem mem_childLines_block_iff {depth child place : Nat} {way : List Nat} {line : Statement} :
    ⟨place :: way, line⟩ ∈ t.childLines depth (.block child, place) ↔
      ⟨way, line⟩ ∈ t.linesWithin depth child := by
  rw [childLines_block, List.mem_map]
  constructor
  · rintro ⟨l, mem, eq⟩
    cases eq
    exact mem
  · intro mem
    exact ⟨_, mem, rfl⟩

/-- The lines below a block are those that a way leads to. The induction is on the way. -/
theorem IsForest.mem_linesWithin_iff (forest : t.IsForest) {depth id : Nat}
    (enough : t.size ≤ id + depth) (way : List Nat) (line : Statement) :
    ⟨way, line⟩ ∈ t.linesWithin depth id ↔ t.lineAt? id way = some line := by
  induction way generalizing depth id with
  | nil =>
      -- No line stands at the block itself: a way begins with the place of a child.
      have absent : ⟨[], line⟩ ∉ t.linesWithin depth id := by
        intro mem
        cases depth with
        | zero => cases mem
        | succ depth =>
            obtain ⟨⟨c, place⟩, -, mem⟩ := List.mem_flatMap.mp mem
            obtain ⟨way, eq⟩ := exists_way_of_mem_childLines mem
            cases eq
      simp only [absent, lineAt?, reduceCtorEq]
  | cons place way ih =>
      cases depth with
      | zero =>
          -- With no depth left the handle is foreign, and no way goes on from it.
          have bare : t.children id = [] := children_foreign enough
          simp only [linesWithin, lineAt?, bare, List.not_mem_nil, List.getElem?_nil, reduceCtorEq]
      | succ depth =>
          rw [mem_linesWithin_succ_iff, lineAt?]
          cases listed : (t.children id)[place]? with
          | none => simp
          | some c =>
              simp only [Option.some.injEq, exists_eq_left']
              cases c with
              | block child =>
                  -- Handles grow on the way down, so the depth that is left is enough.
                  have lower := forest.behind id child (List.mem_of_getElem? listed)
                  rw [mem_childLines_block_iff, ih (by omega)]
              | statement other =>
                  by_cases last : way = []
                  · simp [last, eq_comm]
                  · simp [last]

/-- What holds of the lines of each child holds of those of all children, at any places. -/
theorem filter_body_flatMap {unit indent : String} {pieces : Child → List Piece}
    {rows : Child × Nat → List PlacedLine} {children : List Child}
    (each : ∀ c ∈ children, ∀ place, (pieces c).filter (fun p => p.part = .body)
      = (rows (c, place)).map (PlacedLine.piece unit indent)) (place : Nat) :
    (children.flatMap pieces).filter (fun p => p.part = .body)
      = ((children.zipIdx place).flatMap rows).map (PlacedLine.piece unit indent) := by
  induction children generalizing place with
  | nil => rfl
  | cons c children ih =>
      rw [List.forall_mem_cons] at each
      rw [List.flatMap_cons, List.filter_append, each.1 place, ih each.2 (place + 1),
        List.zipIdx_cons, List.flatMap_cons, List.map_append]

/-- The pieces of the lines below a block are those lines, each behind as many units as its
way has places. -/
theorem IsForest.filter_body_piecesWithin (forest : t.IsForest) (unit : String)
    (depth id : Nat) (indent : String) :
    (t.piecesWithin unit depth id indent).filter (fun p => p.part = .body)
      = (t.linesWithin depth id).map (PlacedLine.piece unit indent) := by
  induction depth generalizing id indent with
  | zero => rfl
  | succ depth ih =>
      cases found : t.get? id with
      | none =>
          rw [piecesWithin, found, linesWithin_succ, children, found]
          rfl
      | some b =>
          have child : ∀ c ∈ t.children id, ∀ place,
              (t.childPieces unit depth id (indent ++ unit) c).filter (fun p => p.part = .body)
                = (t.childLines depth (c, place)).map (PlacedLine.piece unit indent) := by
            intro c mem place
            cases c with
            | block child =>
                rw [childPieces_block, ih, childLines_block, List.map_map]
                refine List.map_congr_left fun l _ => ?_
                exact (PlacedLine.piece_under unit indent place l).symm
            | statement line =>
                -- The piece is that of the block, and the line names the block it stands in.
                have owner := forest.owned id line mem
                simp [PlacedLine.piece, owner]
          rw [piecesWithin_succ found, linesWithin_succ, ← filter_body_flatMap child 0,
            ← children_of_get? found]
          simp

/-! ## The output of a tree -/

/-- **The output is the tree, and all of it.** The text is the pieces put together. There are two
pieces for each block below the start and one for each line in these blocks, with no block
and no line counted twice. The pieces of lines are the lines below the start, depth first and in
the order of insertion, each behind the indentation and one unit for every level. -/
theorem output_of_reachable {t : BlockTree} (reachable : t.Reachable) (unit : String) {s : Nat}
    (known : s < t.size) (indent : String) :
    ∃ (texts : List String) (blocks : List Nat) (rows : List PlacedLine),
      t.flatten unit s indent = some texts ∧
      t.render unit s indent = some (String.join texts) ∧
      (blocks.Nodup ∧ ∀ low, low ∈ blocks ↔ t.Below s low) ∧
      texts.length = 2 * blocks.length + (blocks.flatMap t.lines).length ∧
      texts = (t.pieces unit s indent).map Piece.text ∧
      (t.pieces unit s indent).filter (fun p => p.part = .body)
        = rows.map (PlacedLine.piece unit indent) ∧
      rows.Pairwise PlacedLine.Before ∧
      ∀ way line, ⟨way, line⟩ ∈ rows ↔ t.lineAt? s way = some line := by
  have forest := reachable.isForest
  have enough : t.size ≤ s + t.size := Nat.le_add_left _ _
  have flat := flatten_of_known known unit indent
  refine ⟨_, visited (t.pieces unit s indent), t.linesWithin t.size s, flat, ?_,
    ⟨forest.nodup_visited unit known indent, forest.mem_visited_iff unit indent known enough⟩, ?_,
    rfl, forest.filter_body_piecesWithin unit t.size s indent, pairwise_linesWithin t t.size s,
    forest.mem_linesWithin_iff enough⟩
  · rw [render_eq, flat, Option.map_some]
  · rw [List.length_map]
    exact length_piecesWithin t unit t.size s indent

/-- Lines on three levels, with an empty block behind them. -/
def orderSample : BlockTree :=
  (ofRoot (.switchOn "op")).afterAll
    [.addBlock 0 (.caseOf " 0 "), .addBlock 1 (.ifThen "overflow"),
     .addStatement 2 "throw e;" .body, .addStatement 1 "break;" .exit,
     .addBlock 0 (.caseOf "default")]

/-- Ten pieces, for four blocks and two lines. The deeper line has three units in front of it. -/
theorem orderSample_output :
    orderSample.Reachable ∧ 0 < orderSample.size ∧
    ∃ (texts : List String) (blocks : List Nat),
      orderSample.render " " 0 "" = some (String.join texts) ∧
      texts.length = 10 ∧ 10 = 2 * blocks.length + (blocks.flatMap orderSample.lines).length ∧
      2 ∈ blocks ∧ orderSample.lineAt? 0 [0, 0, 0] = some ⟨"throw e;", 2, .body⟩ ∧
      "   throw e;\n" ∈ texts := by
  have reachable : orderSample.Reachable := ⟨_, _, rfl⟩
  have known : 0 < orderSample.size := by decide
  obtain ⟨texts, blocks, rows, flat, text, ⟨-, all⟩, count, eq, body, -, found⟩ :=
    output_of_reachable reachable " " known ""
  have ten : (orderSample.flatten " " 0 "").map List.length = some 10 := by decide
  rw [flat, Option.map_some, Option.some.injEq] at ten
  have below : orderSample.Below 0 2 :=
    .head (show 1 ∈ orderSample.listed 0 by decide)
      (.single (show 2 ∈ orderSample.listed 1 by decide))
  have way : orderSample.lineAt? 0 [0, 0, 0] = some ⟨"throw e;", 2, .body⟩ := by decide
  refine ⟨reachable, known, texts, blocks, text, ten, ten ▸ count, (all 2).mpr below, way, ?_⟩
  have row := List.mem_map_of_mem (f := PlacedLine.piece " " "") ((found _ _).mpr way)
  rw [← body] at row
  rw [eq]
  exact List.mem_map_of_mem (f := Piece.text) (List.mem_of_mem_filter row)

end BlockTree

end ClassOutline
