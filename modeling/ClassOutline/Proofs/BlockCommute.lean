import ClassOutline.Proofs.BlockLocality
import ClassOutline.Proofs.BlockOutput
import Mathlib.Logic.Equiv.Basic

/-!
Edits of different blocks can be done in either order.

If at most one of two edits makes a block, the order does not matter at all. If both do, each
of the new blocks gets the handle that the other one has in the other order, so the two trees
are not the same. They are the same up to the names of the new blocks: swapping the two handles
turns one tree into the other (`IsForest.renamed_after_after`). Since all that a walk does with a
handle is to look it up, the output does not tell the names (`piecesWithin_renamed`).

It plays no part whether one edit detaches the block of the other, or a block above it. An edit
finds its block by the handle and not by a way through the tree.
-/

set_option autoImplicit false

namespace ClassOutline

/-! ## Other names -/

/-- A child under other names: of the block it is, or of the block its line belongs to. -/
def Child.rename (names : Equiv.Perm Nat) : Child → Child
  | block id => block (names id)
  | statement line => statement { line with owner := names line.owner }

/-- A block under other names, which only its children mention. -/
def Block.rename (names : Equiv.Perm Nat) (b : Block) : Block :=
  { b with children := b.children.map (Child.rename names) }

def Piece.rename (names : Equiv.Perm Nat) (p : Piece) : Piece := { p with block := names p.block }

namespace Block

variable (names : Equiv.Perm Nat) (b : Block) (indent : String)

/-- Names do not show in the text: whether there are braces is a matter of how many children there
are. -/
theorem isSimple_rename : (b.rename names).isSimple = b.isSimple := by
  rw [isSimple, isSimple, rename, List.length_map]

theorem entry_rename : (b.rename names).entry indent = b.entry indent := by
  rw [entry, entry, isSimple_rename]
  rfl

theorem exit_rename : (b.rename names).exit indent = b.exit indent := by
  rw [exit, exit, isSimple_rename]
  rfl

/-- Under its own names a block is what it is. -/
theorem rename_refl : b.rename (Equiv.refl Nat) = b := by
  have child : ∀ c ∈ b.children, c.rename (Equiv.refl Nat) = c := by
    intro c _
    cases c <;> rfl
  rw [rename, List.map_congr_left child, List.map_id']

theorem rename_extend (child : Child) :
    (b.extend child).rename names = (b.rename names).extend (child.rename names) := by
  simp only [rename, extend, List.map_append, List.map_cons, List.map_nil]

end Block

namespace BlockTree

variable {t t' : BlockTree} {f g : Edit}

/-- One tree is another with other names for the blocks. -/
def Renamed (names : Equiv.Perm Nat) (t t' : BlockTree) : Prop :=
  ∀ id, t'.get? (names id) = (t.get? id).map (Block.rename names)

/-- Under other names the pieces are the same, but for the names. -/
theorem piecesWithin_renamed {names : Equiv.Perm Nat} (renamed : Renamed names t t')
    (unit : String) (depth id : Nat) (indent : String) :
    t'.piecesWithin unit depth (names id) indent
      = (t.piecesWithin unit depth id indent).map (Piece.rename names) := by
  induction depth generalizing id indent with
  | zero => rfl
  | succ depth ih =>
      cases found : t.get? id with
      | none =>
          have found' := renamed id
          rw [found, Option.map_none] at found'
          rw [piecesWithin, piecesWithin, found, found']
          rfl
      | some b =>
          have found' := renamed id
          rw [found, Option.map_some] at found'
          -- Child by child: a block is a level deeper, and a line has its text from neither name.
          have child : ∀ c : Child,
              t'.childPieces unit depth (names id) (indent ++ unit) (c.rename names)
                = (t.childPieces unit depth id (indent ++ unit) c).map (Piece.rename names) := by
            intro c
            cases c with
            | block child => exact ih child (indent ++ unit)
            | statement line => rfl
          rw [piecesWithin_succ found, piecesWithin_succ found', Block.entry_rename,
            Block.exit_rename, Block.rename, List.flatMap_map]
          simp only [child, List.map_append, List.map_cons, List.map_flatMap, List.map_nil]
          rfl

/-- A block that keeps its name has the same output under other names. -/
theorem flatten_renamed {names : Equiv.Perm Nat} (renamed : Renamed names t t')
    (size : t'.size = t.size) (unit : String) {id : Nat} (named : names id = id)
    (indent : String) : t'.flatten unit id indent = t.flatten unit id indent := by
  have pieces := piecesWithin_renamed renamed unit t.size id indent
  rw [named] at pieces
  rw [flatten_eq, flatten_eq, BlockTree.pieces, BlockTree.pieces, size, pieces, List.map_map]
  rfl

/-- A block of a forest mentions blocks of the forest only. -/
theorem IsForest.rename_eq_self (forest : t.IsForest) {names : Equiv.Perm Nat}
    (fixed : ∀ id, id < t.size → names id = id) {id : Nat} {b : Block}
    (found : t.get? id = some b) : b.rename names = b := by
  have child : ∀ c ∈ b.children, c.rename names = c := by
    intro c mem
    rw [← children_of_get? found] at mem
    cases c with
    | block child => rw [Child.rename, fixed child (forest.behind id child mem).2]
    | statement line =>
        have owner := forest.owned id line mem
        rw [Child.rename, fixed line.owner (owner ▸ lt_size_of_get? found)]
  rw [Block.rename, List.map_congr_left child, List.map_id']

end BlockTree

/-! ## One edit behind another -/

namespace Edit

/-- The blocks that an edit makes. -/
def made : Edit → List Block
  | addBlock _ kind => [{ kind }]
  | _ => []

/-- An edit makes as many blocks as the tree grows by. -/
theorem length_made (e : Edit) : e.made.length = e.growth := by
  cases e <;> rfl

theorem made_eq_nil {e : Edit} (quiet : e.growth = 0) : e.made = [] := by
  rw [← List.length_eq_zero_iff, length_made, quiet]

/-- What an edit does to the children of its block depends on no more than the next handle. -/
theorem change_congr (e : Edit) {t t' : BlockTree} (size : t'.size = t.size) :
    e.change t' = e.change t := by
  cases e with
  | addBlock parent kind =>
      funext children
      rw [change, change, size]
  | addStatement parent text role => rfl
  | removeLastBlock parent => rfl
  | removeLastStatement parent => rfl

/-- An edit that makes no block does not depend on the tree at all. -/
theorem change_of_quiet {e : Edit} (quiet : e.growth = 0) (t t' : BlockTree) :
    e.change t' = e.change t := by
  cases e with
  | addBlock parent kind => cases quiet
  | addStatement parent text role => rfl
  | removeLastBlock parent => rfl
  | removeLastStatement parent => rfl

/-- An edit makes no block, or it is one that adds a block. -/
theorem quiet_or_addBlock (e : Edit) : e.growth = 0 ∨ ∃ parent kind, e = .addBlock parent kind := by
  cases e with
  | addBlock parent kind => exact .inr ⟨parent, kind, rfl⟩
  | addStatement parent text role => exact .inl rfl
  | removeLastBlock parent => exact .inl rfl
  | removeLastStatement parent => exact .inl rfl

end Edit

namespace BlockTree

variable {t t' : BlockTree} {f g : Edit}

/-- Behind the blocks that were there stand those that the edit made. -/
theorem get?_after_new {e : Edit} (known : e.target < t.size) {id : Nat} (new : t.size ≤ id) :
    (t.after e).get? id = e.made[id - t.size]? := by
  have made := edit_after known
  rw [edit] at made
  obtain ⟨changed, update, eq⟩ := Option.map_eq_some_iff.mp made
  have size := size_updateChildren update
  have foreign : changed.get? id = none := get?_eq_none_iff.mpr (by omega)
  rw [← eq]
  -- Only a new block puts anything behind the old handles, and it takes the first of them.
  cases e with
  | addBlock parent kind =>
      unfold get? BlockTree.size at *
      rw [Edit.extend, Array.getElem?_push, Edit.made, List.getElem?_singleton]
      by_cases next : id = changed.blocks.size
      · rw [if_pos next, if_pos (by omega)]
      · rw [if_neg next, if_neg (by omega), foreign]
  | addStatement parent text role => exact foreign
  | removeLastBlock parent => exact foreign
  | removeLastStatement parent => exact foreign

/-- Of the blocks that were there, two edits change the two they are about. -/
theorem get?_after_after (knownF : f.target < t.size) (knownG : g.target < t.size)
    (apart : f.target ≠ g.target) {id : Nat} (old : id < t.size) :
    ((t.after f).after g).get? id = (t.get? id).map fun b =>
      if id = f.target then { b with children := f.change t b.children }
      else if id = g.target then { b with children := g.change (t.after f) b.children }
      else b := by
  have size := size_after knownF
  rw [get?_after (show g.target < (t.after f).size by omega) (by omega), get?_after knownF old,
    Option.map_map]
  refine Option.map_congr fun b _ => ?_
  by_cases here : id = f.target
  · have other : id ≠ g.target := fun there => apart (here.symm.trans there)
    simp only [Function.comp_apply, if_pos here, if_neg other]
  · simp only [Function.comp_apply, if_neg here]

/-- Behind them stand the new blocks, in the order of the edits. -/
theorem get?_after_after_new (knownF : f.target < t.size) (knownG : g.target < t.size) {id : Nat}
    (new : t.size ≤ id) :
    ((t.after f).after g).get? id = (f.made ++ g.made)[id - t.size]? := by
  have size := size_after knownF
  have length := f.length_made
  have knownG' : g.target < (t.after f).size := by omega
  by_cases first : id < (t.after f).size
  · have other : id ≠ g.target := by omega
    rw [get?_after knownG' first, List.getElem?_append_left (by omega)]
    simp only [if_neg other, Option.map_id']
    exact get?_after_new knownF new
  · rw [get?_after_new knownG' (by omega), List.getElem?_append_right (by omega)]
    congr 1
    omega

/-- Two edits make the tree grow by what each of them makes. -/
theorem size_after_after (knownF : f.target < t.size) (knownG : g.target < t.size) :
    ((t.after f).after g).size = t.size + f.growth + g.growth := by
  have size := size_after knownF
  rw [size_after (show g.target < (t.after f).size by omega), size]

/-! ## Two edits in either order -/

/-- If at most one of two edits makes a block, each does what it would do without the other. -/
theorem change_after (knownG : g.target < t.size) (quiet : f.growth = 0 ∨ g.growth = 0) :
    f.change (t.after g) = f.change t := by
  rcases quiet with still | still
  · exact Edit.change_of_quiet still _ _
  · exact f.change_congr (by rw [size_after knownG, still, Nat.add_zero])

/-- If at most one of two edits makes a block, the trees are the same. -/
theorem get?_after_after_comm (knownF : f.target < t.size) (knownG : g.target < t.size)
    (apart : f.target ≠ g.target) (quiet : f.growth = 0 ∨ g.growth = 0) (id : Nat) :
    ((t.after g).after f).get? id = ((t.after f).after g).get? id := by
  by_cases old : id < t.size
  · rw [get?_after_after knownF knownG apart old, get?_after_after knownG knownF apart.symm old,
      change_after knownG quiet, change_after knownF quiet.symm]
    exact Option.map_congr fun b _ =>
      ite_ite_comm _ _ _ _ fun there here => apart (here.symm.trans there)
  · rw [get?_after_after_new knownF knownG (Nat.le_of_not_lt old),
      get?_after_after_new knownG knownF (Nat.le_of_not_lt old)]
    rcases quiet with still | still
    · rw [Edit.made_eq_nil still, List.nil_append, List.append_nil]
    · rw [Edit.made_eq_nil still, List.nil_append, List.append_nil]

/-- Two new blocks under different parents are listed by the handles they get. -/
theorem get?_addBlock_addBlock {p q : Nat} (knownP : p < t.size) (knownQ : q < t.size)
    (apart : p ≠ q) (kind kind' : BlockKind) {id : Nat} (old : id < t.size) :
    ((t.after (.addBlock p kind)).after (.addBlock q kind')).get? id = (t.get? id).map fun b =>
      if id = p then b.extend (.block t.size)
      else if id = q then b.extend (.block (t.size + 1)) else b := by
  have size : (t.after (.addBlock p kind)).size = t.size + 1 := size_after knownP
  rw [get?_after_after (f := .addBlock p kind) (g := .addBlock q kind') knownP knownQ apart old]
  simp only [Edit.target, Edit.change, size]
  rfl

/-- The new blocks stand behind the old ones in the order they were made in. -/
theorem get?_addBlock_addBlock_new {p q : Nat} (knownP : p < t.size) (knownQ : q < t.size)
    (kind kind' : BlockKind) {id : Nat} (new : t.size ≤ id) :
    ((t.after (.addBlock p kind)).after (.addBlock q kind')).get? id
      = [{ kind }, { kind := kind' }][id - t.size]? :=
  get?_after_after_new (f := .addBlock p kind) (g := .addBlock q kind') knownP knownQ new

/-- Swapping the next two handles leaves those that are given out alone. -/
theorem swap_apply_of_lt {n id : Nat} (old : id < n) : Equiv.swap n (n + 1) id = id :=
  Equiv.swap_apply_of_ne_of_ne (by omega) (by omega)

/-- In the other order they get each other's handle. -/
theorem IsForest.renamed_addBlock (forest : t.IsForest) {p q : Nat} (knownP : p < t.size)
    (knownQ : q < t.size) (apart : p ≠ q) (kind kind' : BlockKind) :
    Renamed (Equiv.swap t.size (t.size + 1))
      ((t.after (.addBlock p kind)).after (.addBlock q kind'))
      ((t.after (.addBlock q kind')).after (.addBlock p kind)) := by
  have new := fun id (late : t.size ≤ id) =>
    get?_addBlock_addBlock_new knownP knownQ kind kind' late
  have new' := fun id (late : t.size ≤ id) =>
    get?_addBlock_addBlock_new knownQ knownP kind' kind late
  intro id
  by_cases old : id < t.size
  · -- A parent lists its new block under the handle that the block has in this order.
    rw [swap_apply_of_lt old, get?_addBlock_addBlock knownQ knownP apart.symm kind' kind old,
      get?_addBlock_addBlock knownP knownQ apart kind kind' old, Option.map_map]
    refine Option.map_congr fun b found => ?_
    have same := forest.rename_eq_self (fun _ => swap_apply_of_lt) found
    by_cases here : id = p
    · have other : id ≠ q := fun there => apart (here.symm.trans there)
      simp only [Function.comp_apply, if_pos here, if_neg other, Block.rename_extend, same,
        Child.rename, Equiv.swap_apply_left]
    · by_cases there : id = q
      · simp only [Function.comp_apply, if_pos there, if_neg here, Block.rename_extend, same,
          Child.rename, Equiv.swap_apply_right]
      · simp only [Function.comp_apply, if_neg there, if_neg here, same]
  · -- The new blocks stand in each other's place, and behind them there is nothing.
    by_cases first : id = t.size
    · rw [first, Equiv.swap_apply_left, new' _ (by omega), new _ (by omega), Nat.sub_self,
        Nat.add_sub_cancel_left]
      rfl
    · by_cases second : id = t.size + 1
      · rw [second, Equiv.swap_apply_right, new' _ (by omega), new _ (by omega), Nat.sub_self,
          Nat.add_sub_cancel_left]
        rfl
      · rw [Equiv.swap_apply_of_ne_of_ne first second, new' _ (by omega), new _ (by omega),
          List.getElem?_eq_none (by simp; omega), List.getElem?_eq_none (by simp; omega)]
        rfl

/-- The two orders lead to the same tree, up to names for the new blocks. -/
theorem IsForest.renamed_after_after (forest : t.IsForest) (knownF : f.target < t.size)
    (knownG : g.target < t.size) (apart : f.target ≠ g.target) :
    ∃ names : Equiv.Perm Nat, (∀ id, id < t.size → names id = id) ∧
      Renamed names ((t.after f).after g) ((t.after g).after f) := by
  have alike : f.growth = 0 ∨ g.growth = 0 →
      Renamed (Equiv.refl Nat) ((t.after f).after g) ((t.after g).after f) := by
    intro quiet id
    rw [Equiv.refl_apply, get?_after_after_comm knownF knownG apart quiet]
    exact (Option.map_id'.symm).trans (Option.map_congr fun b _ => b.rename_refl.symm)
  rcases f.quiet_or_addBlock with quiet | ⟨p, kind, rfl⟩
  · exact ⟨Equiv.refl Nat, fun _ _ => rfl, alike (.inl quiet)⟩
  rcases g.quiet_or_addBlock with quiet | ⟨q, kind', rfl⟩
  · exact ⟨Equiv.refl Nat, fun _ _ => rfl, alike (.inr quiet)⟩
  exact ⟨Equiv.swap t.size (t.size + 1), fun _ => swap_apply_of_lt,
    forest.renamed_addBlock knownF knownG apart kind kind'⟩

/-- A child is taken away all the same after an edit of another block. -/
theorem exists_removed {p : Nat} (knownP : p < t.size) (knownG : g.target < t.size)
    (apart : p ≠ g.target) :
    ∃ child, ((Edit.removeLastStatement p).perform.on t).1 = some (.removed child) ∧
      ((Edit.removeLastStatement p).perform.on (t.after g)).1 = some (.removed child) := by
  have size := size_after knownG
  have last : (t.after g).lastChild? p = t.lastChild? p := by
    rw [lastChild?, lastChild?, get?_after knownG knownP]
    simp only [if_neg apart, Option.map_id']
  have before := perform_on_known (e := .removeLastStatement p) knownP
  have behind := perform_on_known (t := t.after g) (e := .removeLastStatement p)
    (show p < (t.after g).size by omega)
  refine ⟨t.lastChild? p, ?_, ?_⟩
  · rw [before, Edit.reply]
  · rw [behind, Edit.reply, last]

/-- **Edits of different blocks commute.** Whatever the two edits are, and wherever the blocks
stand, the output from any block that was there before is the same in both orders, at any
indentation and with any unit. An edit that gives back a child gives back the same child in
both orders. -/
theorem edits_commute {t : BlockTree} (reachable : t.Reachable) {f g : Edit}
    (knownF : f.target < t.size) (knownG : g.target < t.size) (apart : f.target ≠ g.target) :
    (∀ (unit : String) (id : Nat) (indent : String), id < t.size →
      ((t.after f).after g).flatten unit id indent
        = ((t.after g).after f).flatten unit id indent ∧
      ∃ text, ((t.after f).after g).render unit id indent = some text ∧
        ((t.after g).after f).render unit id indent = some text) ∧
    (∀ p, f = .removeLastStatement p → ∃ child,
      (f.perform.on t).1 = some (.removed child) ∧
      (f.perform.on (t.after g)).1 = some (.removed child)) ∧
    ∀ q, g = .removeLastStatement q → ∃ child,
      (g.perform.on (t.after f)).1 = some (.removed child) ∧
      (g.perform.on t).1 = some (.removed child) := by
  refine ⟨?_, ?_, ?_⟩
  · intro unit id indent old
    -- The two trees differ by a renaming of the blocks that were made, which the text does not
    -- show.
    obtain ⟨names, fixed, renamed⟩ := reachable.isForest.renamed_after_after knownF knownG apart
    have sizeF := size_after_after knownF knownG
    have sizeG := size_after_after knownG knownF
    have flat := flatten_renamed renamed (by omega) unit (fixed id old) indent
    have here : ((t.after f).after g).render unit id indent = some _ := if_pos (by omega)
    exact ⟨flat.symm, _, here, (render_eq_of_flatten_eq flat).trans here⟩
  · rintro p rfl
    exact exists_removed knownF knownG apart
  · rintro q rfl
    obtain ⟨child, before, behind⟩ := exists_removed knownG knownF apart.symm
    exact ⟨child, behind, before⟩

/-- A block is made in the `if` and one in the loop; and a block is made in the loop, which is
detached by the other edit. -/
theorem braceSample_edits_commute :
    braceSample.Reachable ∧
    (let f : Edit := .addBlock 0 (.switchOn "y")
     let g : Edit := .addBlock 1 (.ifThen "b")
     (braceSample.after f).after g ≠ (braceSample.after g).after f ∧
     ∃ text, ((braceSample.after f).after g).render " " 0 "" = some text ∧
       ((braceSample.after g).after f).render " " 0 "" = some text) ∧
    (let f : Edit := .removeLastStatement 0
     let g : Edit := .addBlock 1 (.ifThen "b")
     (f.perform.on braceSample).1 = some (.removed (some (.block 1))) ∧
     (f.perform.on (braceSample.after g)).1 = some (.removed (some (.block 1)))) := by
  have reachable : braceSample.Reachable := ⟨_, _, rfl⟩
  obtain ⟨output, -, -⟩ := edits_commute reachable (f := .addBlock 0 (.switchOn "y"))
    (g := .addBlock 1 (.ifThen "b")) (by decide) (by decide) (by decide)
  obtain ⟨-, removed, -⟩ := edits_commute reachable (f := .removeLastStatement 0)
    (g := .addBlock 1 (.ifThen "b")) (by decide) (by decide) (by decide)
  obtain ⟨child, before, behind⟩ := removed 0 rfl
  have loop : ((Edit.removeLastStatement 0).perform.on braceSample).1
      = some (.removed (some (.block 1))) := by decide
  cases loop.symm.trans before
  exact ⟨reachable, ⟨by decide, (output " " 0 "" (by decide)).2⟩, loop, behind⟩

end BlockTree

end ClassOutline
