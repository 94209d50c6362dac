import ClassOutline.Proofs.BlockLocality
import ClassOutline.Proofs.BlockOutput

/-!
A block on trial can be taken back.

A block is added, filled by any edits of it and of blocks that were made later, and then
removed from its parent. What is left is more than there was: the blocks that were made on
the way stay in the tree, and their handles go on to work. But nothing that was there before
has changed, and the old blocks list none of the new ones, so from an old block on the output
is what it was.

The argument is about handles. An edit changes the block of its handle and no other, so edits
with handles from some number on keep all blocks in front of it (`agreeBelow_afterAll`). And the
walk from an old block comes to old blocks only (`IsForest.lt_size_of_below`), so a tree
that keeps the old blocks keeps their output (`IsForest.pieces_of_agreeBelow`). For the second
step the tree has to be a forest, since a handle that is listed before it is given out would
lead to a new block.
-/

set_option autoImplicit false

namespace ClassOutline

namespace BlockTree

variable {t t' : BlockTree}

/-! ## Blocks in front of a handle -/

/-- Two trees have the same blocks in front of a handle. -/
def AgreeBelow (n : Nat) (t t' : BlockTree) : Prop := ∀ id, id < n → t'.get? id = t.get? id

/-- What stands in front of the handle is in both trees or in none. -/
theorem AgreeBelow.le_size {n : Nat} (agree : AgreeBelow n t t') (room : n ≤ t.size) :
    n ≤ t'.size := by
  by_contra short
  obtain ⟨b, found⟩ := exists_get? (show t'.size < t.size by omega)
  rw [← agree t'.size (by omega), get?_eq_none_iff.mpr (Nat.le_refl _)] at found
  cases found

/-- One edit keeps what stands in front of its handle. -/
theorem agreeBelow_after {n : Nat} {e : Edit} (late : n ≤ e.target) :
    AgreeBelow n t (t.after e) := by
  intro id early
  by_cases known : e.target < t.size
  · have other : id ≠ e.target := by omega
    rw [get?_after known (by omega)]
    simp only [if_neg other, Option.map_id']
  · rw [after_foreign known]

/-- Many edits keep what stands in front of all their handles. -/
theorem agreeBelow_afterAll {n : Nat} {edits : List Edit} (late : ∀ e ∈ edits, n ≤ e.target) :
    AgreeBelow n t (t.afterAll edits) := by
  induction edits generalizing t with
  | nil =>
      intro id _
      rfl
  | cons e edits ih =>
      rw [List.forall_mem_cons] at late
      intro id early
      exact (ih late.2 id early).trans (agreeBelow_after late.1 id early)

/-! ## Output of kept blocks -/

/-- From a block of the tree the way down leads to blocks of the tree. -/
theorem IsForest.lt_size_of_below (forest : t.IsForest) {id low : Nat} (known : id < t.size)
    (h : t.Below id low) : low < t.size := by
  rcases Relation.ReflTransGen.cases_tail h with rfl | ⟨parent, -, lists⟩
  · exact known
  · exact (forest.behind parent low (mem_listed.mp lists)).2

/-- Levels beyond those of the forest do not show. -/
theorem IsForest.piecesWithin_eq_pieces (forest : t.IsForest) (unit : String) {depth id : Nat}
    (indent : String) (known : id < t.size) (enough : t.size ≤ id + depth) :
    t.piecesWithin unit depth id indent = t.pieces unit id indent :=
  (forest.walk_iff unit known indent _).mp
    (forest.walk_piecesWithin unit depth id indent known enough)

/-- A tree that keeps all blocks of a forest keeps their output. -/
theorem IsForest.pieces_of_agreeBelow (forest : t.IsForest) (agree : AgreeBelow t.size t t')
    (unit : String) {id : Nat} (known : id < t.size) (indent : String) :
    t'.pieces unit id indent = t.pieces unit id indent := by
  have room : t.size ≤ t'.size := agree.le_size (Nat.le_refl _)
  calc t'.pieces unit id indent
      = t.piecesWithin unit t'.size id indent :=
        piecesWithin_congr unit t'.size indent fun low below =>
          agree low (forest.lt_size_of_below known below)
    _ = t.pieces unit id indent :=
        forest.piecesWithin_eq_pieces unit indent known (by omega)

/-- So what is flattened from an old block on is the same. -/
theorem IsForest.flatten_of_agreeBelow (forest : t.IsForest) (agree : AgreeBelow t.size t t')
    (unit : String) {id : Nat} (known : id < t.size) (indent : String) :
    t'.flatten unit id indent = t.flatten unit id indent := by
  have room : t.size ≤ t'.size := agree.le_size (Nat.le_refl _)
  rw [flatten_of_known known, flatten_of_known (by omega),
    forest.pieces_of_agreeBelow agree unit known indent]

/-! ## Taking a block back -/

/-- A child that was added is taken away again, whatever later blocks went through in the
meantime. -/
theorem agreeBelow_of_removeLast {p : Nat} (known : p < t.size) (kind : BlockKind)
    {edits : List Edit} (late : ∀ e ∈ edits, t.size ≤ e.target) :
    AgreeBelow t.size t
      (((t.after (.addBlock p kind)).afterAll edits).after (.removeLastBlock p)) := by
  have grown : (t.after (.addBlock p kind)).size = t.size + 1 := size_after known
  have kept := agreeBelow_afterAll (t := t.after (.addBlock p kind)) late
  have room := kept.le_size (by omega)
  intro id old
  have listed : (t.after (.addBlock p kind)).get? id = (t.get? id).map fun b =>
      if id = p then { b with children := b.children ++ [.block t.size] } else b :=
    get?_after (e := .addBlock p kind) known old
  rw [get?_after (show p < _ by omega) (show id < _ by omega), kept id old, listed, Option.map_map]
  -- The last child of the parent is the one that was added, and all else was left alone.
  refine (Option.map_congr fun b _ => ?_).trans Option.map_id'
  by_cases here : id = p
  · simp [here, Edit.target, Edit.change]
  · simp [here, Edit.target]

/-- **A block on trial leaves no trace.** Add a block, edit it and blocks made after it in any way,
and remove the last child of its parent: then every block of the tree is what it was, and
so is the output from it on, at any indentation and with any unit. -/
theorem restored_after_removeLast {t : BlockTree} (reachable : t.Reachable) {p : Nat}
    (known : p < t.size) (kind : BlockKind) :
    ∃ n, ((Edit.addBlock p kind).perform.on t).1 = some (.handle n) ∧
      ∀ edits : List Edit, (∀ e ∈ edits, n ≤ e.target) →
        let left := ((t.after (.addBlock p kind)).afterAll edits).after (.removeLastBlock p)
        ∀ id, id < t.size →
          left.get? id = t.get? id ∧
          ∀ unit indent : String,
            left.flatten unit id indent = t.flatten unit id indent ∧
            left.render unit id indent = t.render unit id indent := by
  have forest := reachable.isForest
  refine ⟨t.size, ?_, ?_⟩
  · rw [perform_on_known (e := .addBlock p kind) known]
    rfl
  · intro edits late left id old
    have agree : AgreeBelow t.size t left := agreeBelow_of_removeLast known kind late
    refine ⟨agree id old, fun unit indent => ?_⟩
    have flat := forest.flatten_of_agreeBelow agree unit old indent
    exact ⟨flat, render_eq_of_flatten_eq flat⟩

/-- Edits of a block on trial, and of one inside it. -/
def trialEdits : List Edit :=
  [.addStatement 3 "g();" .body, .addBlock 3 (.switchOn "y"), .addStatement 4 "h();" .body,
   .removeLastStatement 3, .addBlock 4 (.caseOf "1")]

/-- A third block in the `if` shows while it is there. Afterwards it is still in the tree, with
all it was given, but does not show. -/
theorem braceSample_restored :
    braceSample.Reachable ∧ 0 < braceSample.size ∧ (∀ e ∈ trialEdits, 3 ≤ e.target) ∧
    (let filled := (braceSample.after (.addBlock 0 (.ifThen "b"))).afterAll trialEdits
     let left := filled.after (.removeLastBlock 0)
     filled.flatten " " 0 "" ≠ braceSample.flatten " " 0 "" ∧
     left.size = braceSample.size + 3 ∧
     left.get? 0 = braceSample.get? 0 ∧
     left.render " " 0 "" = braceSample.render " " 0 "") := by
  have reachable : braceSample.Reachable := ⟨_, _, rfl⟩
  have known : 0 < braceSample.size := by decide
  have late : ∀ e ∈ trialEdits, 3 ≤ e.target := by decide
  obtain ⟨n, handle, restored⟩ := restored_after_removeLast reachable known (.ifThen "b")
  have third : ((Edit.addBlock 0 (.ifThen "b")).perform.on braceSample).1 = some (.handle 3) := by
    decide
  cases third.symm.trans handle
  obtain ⟨block, output⟩ := restored trialEdits late 0 known
  exact ⟨reachable, known, late, by decide, by decide, block, (output " " "").2⟩

end BlockTree

end ClassOutline
