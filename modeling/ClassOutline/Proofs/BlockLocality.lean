import ClassOutline.Proofs.BlockForest

/-!
Where an edit shows in the text.

The pieces of a block are made from the block and from those below it, and from nothing else
(`piecesWithin_congr`). So an edit of a block that does not stand below the start of a walk
does not show. If it does stand below, then the pieces from the start on are some pieces in
front of it, its own pieces, and some pieces behind it, and those in front and behind are
none of its own (`IsForest.exists_split`). Here a forest is needed: a block that were listed
twice would have its pieces in two places.

What is left is the block itself. A line added to it comes last in its body, and the number
of its children goes up by one. That number decides about braces, so the opening and the
closing of an `if` or `for` are not quite safe from an edit (`Block.ShowsBraces`).
-/

set_option autoImplicit false

namespace ClassOutline

/-! ## Braces -/

/-- Does a construct go without braces around a single child? -/
def BlockKind.elidesBraces : BlockKind → Bool
  | ifThen _ | forLoop _ _ _ => true
  | doWhile _ _ _ | switchOn _ | caseOf _ => false

namespace Block

/-- A block with one more child. -/
def extend (b : Block) (child : Child) : Block := { b with children := b.children ++ [child] }

/-- With one more child a block begins or ceases to be simple only if it had one at most. -/
theorem isSimple_extend_iff (b : Block) (child : Child) :
    (b.extend child).isSimple = b.isSimple ↔ 2 ≤ b.children.length := by
  have length : (b.extend child).children.length = b.children.length + 1 := by
    rw [extend, List.length_append, List.length_singleton]
  rw [isSimple, isSimple, length, Bool.eq_iff_iff, beq_iff_eq, beq_iff_eq]
  omega

/-- A text shows of the children of a block only whether there is exactly one, and that only on
a construct which then goes without braces. -/
def ShowsBraces (kind : BlockKind) (text : List Child → String) : Prop :=
  match kind.elidesBraces with
  | true => ∃ front plain braced, plain ≠ braced ∧ ∀ children,
      text children = front ++ if (Block.mk kind children).isSimple then plain else braced
  | false => ∀ children children', text children = text children'

/-- One more child shows in such a text exactly if braces come or go. -/
theorem ShowsBraces.extend_ne_iff {b : Block} {text : List Child → String}
    (shows : ShowsBraces b.kind text) (child : Child) :
    text (b.extend child).children ≠ text b.children ↔
      b.kind.elidesBraces = true ∧ b.children.length < 2 := by
  unfold ShowsBraces at shows
  split at shows
  next elides =>
    obtain ⟨front, plain, braced, differ, chosen⟩ := shows
    have now : (Block.mk b.kind (b.extend child).children).isSimple = (b.extend child).isSimple :=
      rfl
    rw [chosen, chosen, Ne, String.append_right_inj, now, ← Nat.not_le,
      ← isSimple_extend_iff b child]
    -- The two texts that are chosen from differ, so they tell the choice.
    cases (b.extend child).isSimple <;> cases b.isSimple <;> simp [elides, differ, differ.symm]
  next fixed => simp [fixed, shows (b.extend child).children b.children]

/-- The opening shows whether there are braces, for the kinds of block that may leave them out. -/
theorem showsBraces_entry (kind : BlockKind) (indent : String) :
    ShowsBraces kind fun children => (Block.mk kind children).entry indent := by
  cases kind with
  | ifThen condition => exact ⟨"if (" ++ condition ++ ") ", "\n", "\x7b\n", by decide, fun _ => rfl⟩
  | forLoop init test update =>
      exact ⟨"for (" ++ init ++ ";" ++ test ++ ";" ++ update ++ ") ", "\n", "\x7b\n", by decide,
        fun _ => rfl⟩
  | doWhile left operator right => exact fun _ _ => rfl
  | switchOn expression => exact fun _ _ => rfl
  | caseOf labels => exact fun _ _ => rfl

/-- So does the closing. -/
theorem showsBraces_exit (kind : BlockKind) (indent : String) :
    ShowsBraces kind fun children => (Block.mk kind children).exit indent := by
  cases kind with
  | ifThen condition =>
      exact ⟨"", "\n", "\x7d\n", by decide, fun _ => String.empty_append.symm⟩
  | forLoop init test update =>
      exact ⟨"", "\n", "\x7d\n", by decide, fun _ => String.empty_append.symm⟩
  | doWhile left operator right => exact fun _ _ => rfl
  | switchOn expression => exact fun _ _ => rfl
  | caseOf labels => exact fun _ _ => rfl

end Block

namespace BlockTree

variable {t t' : BlockTree}

/-! ## Depth -/

/-- A block stands so many levels below another. -/
inductive StandsAt (t : BlockTree) : Nat → Nat → Nat → Prop
  | here {id : Nat} : StandsAt t id 0 id
  | down {id child d low : Nat} : t.Lists id child → StandsAt t child d low →
      StandsAt t id (d + 1) low

/-- A block at some level below another stands below it. -/
theorem below_of_standsAt {id d low : Nat} (h : t.StandsAt id d low) : t.Below id low := by
  induction h with
  | here => exact .refl
  | down lists _ ih => exact .head lists ih

/-- A block that stands below another does so at some level. -/
theorem exists_standsAt {id low : Nat} (h : t.Below id low) : ∃ d, t.StandsAt id d low := by
  induction h using Relation.ReflTransGen.head_induction_on with
  | refl => exact ⟨0, .here⟩
  | head lists _ ih =>
      obtain ⟨d, at_⟩ := ih
      exact ⟨d + 1, .down lists at_⟩

/-- Each level down, the handle is larger. -/
theorem IsForest.add_le_of_standsAt (forest : t.IsForest) {id d low : Nat}
    (h : t.StandsAt id d low) : id + d ≤ low := by
  induction h with
  | here => exact Nat.le_refl _
  | down lists _ ih =>
      have := forest.behind _ _ (mem_listed.mp lists)
      omega

/-! ## Pieces come from below -/

/-- Blocks that are the same from a start on downwards have the same pieces. -/
theorem piecesWithin_congr (unit : String) (depth : Nat) {id : Nat} (indent : String)
    (same : ∀ low, t.Below id low → t'.get? low = t.get? low) :
    t'.piecesWithin unit depth id indent = t.piecesWithin unit depth id indent := by
  induction depth generalizing id indent with
  | zero => rfl
  | succ depth ih =>
      cases found : t.get? id with
      | none =>
          have found' := same id .refl
          rw [found] at found'
          rw [piecesWithin, piecesWithin, found, found']
      | some b =>
          have found' := same id .refl
          rw [found] at found'
          -- A child that is a block is below `id`, and so is all that is below the child.
          have inside : b.children.flatMap (t'.childPieces unit depth id (indent ++ unit))
              = b.children.flatMap (t.childPieces unit depth id (indent ++ unit)) := by
            refine List.flatMap_congr ?_
            intro c mem
            cases c with
            | block child =>
                have lists : t.Lists id child := by
                  rw [← children_of_get? found] at mem
                  exact mem_listed.mpr mem
                exact ih _ fun low under => same low (.head lists under)
            | statement line => rfl
          rw [piecesWithin_succ found, piecesWithin_succ found', inside]

/-- Every piece belongs to a block below the start. -/
theorem below_of_mem_piecesWithin {unit : String} {depth id : Nat} {indent : String} {q : Piece}
    (mem : q ∈ t.piecesWithin unit depth id indent) : t.Below id q.block := by
  induction depth generalizing id indent with
  | zero => cases mem
  | succ depth ih =>
      cases found : t.get? id with
      | none =>
          rw [piecesWithin, found] at mem
          cases mem
      | some b =>
          rw [piecesWithin_succ found, List.mem_append, List.mem_cons, List.mem_singleton,
            List.mem_flatMap] at mem
          -- A piece is the opening, the closing, or one of a child.
          rcases mem with (rfl | ⟨c, listed, mem⟩) | rfl
          · exact .refl
          · cases c with
            | block child =>
                rw [← children_of_get? found] at listed
                exact .head (mem_listed.mpr listed) (ih mem)
            | statement line =>
                cases List.mem_singleton.mp mem
                exact .refl
          · exact .refl

/-- Nothing stands below two children of one block. -/
theorem IsForest.not_below_of_listed (forest : t.IsForest) {id a b low : Nat}
    (ha : a ∈ t.listed id) (hb : b ∈ t.listed id) (differ : a ≠ b) (under : t.Below a low) :
    ¬ t.Below b low := by
  intro under'
  rcases forest.below_or_below under under' with h | h
  · exact differ (forest.eq_of_below ha hb h)
  · exact differ (forest.eq_of_below hb ha h).symm

/-! ## Around a block -/

/-- A block is listed in one place of a list. -/
theorem IsForest.not_mem_of_split (forest : t.IsForest) {id child : Nat} {pre post : List Child}
    (split : t.children id = pre ++ .block child :: post) :
    .block child ∉ pre ∧ .block child ∉ post := by
  have distinct := (nodup_allListed_iff.mp forest.once).1 id
  have named : (Child.block child).block? = some child := rfl
  rw [listed, split, List.filterMap_append, List.filterMap_cons_some named, List.nodup_append,
    List.nodup_cons] at distinct
  obtain ⟨-, ⟨notPost, -⟩, apart⟩ := distinct
  constructor
  · intro mem
    exact apart child (List.mem_filterMap.mpr ⟨_, mem, rfl⟩) child List.mem_cons_self rfl
  · intro mem
    exact notPost (List.mem_filterMap.mpr ⟨_, mem, rfl⟩)

/-- If `child` leads down to `p`, what the other children of the same block put out has nothing
to do with `p`: it is the same in a tree that differs only from `p` on downwards, and no piece
of it belongs to a block there. -/
theorem IsForest.childPieces_of_ne (forest : t.IsForest) {s child p : Nat}
    (lists : t.Lists s child) (under : t.Below child p)
    (same : ∀ id, t.Below s id → ¬ t.Below p id → t'.get? id = t.get? id)
    (unit : String) (depth : Nat) (inner : String) {c : Child} (mem : c ∈ t.children s)
    (other : c ≠ .block child) :
    t'.childPieces unit depth s inner c = t.childPieces unit depth s inner c ∧
      ∀ q ∈ t.childPieces unit depth s inner c, ¬ t.Below p q.block := by
  cases c with
  | statement line =>
      refine ⟨rfl, ?_⟩
      intro q piece above
      cases List.mem_singleton.mp piece
      -- A line of `s` is a piece of `s`, and `s` is above `p`, not below.
      have : p ≤ s := forest.le_of_below above
      have := forest.le_of_below under
      have := forest.behind s child (mem_listed.mp lists)
      omega
  | block c =>
      have listed : c ∈ t.listed s := mem_listed.mpr mem
      have differ : c ≠ child := fun eq => other (congrArg Child.block eq)
      -- Two children of one block have nothing below both of them.
      have apart : ∀ low, t.Below c low → ¬ t.Below p low := by
        intro low above below
        exact forest.not_below_of_listed listed lists differ above (under.trans below)
      refine ⟨?_, fun q piece => apart _ (below_of_mem_piecesWithin piece)⟩
      exact piecesWithin_congr unit depth inner fun low above =>
        same low (.head listed above) (apart low above)

/-- One level down: what stands around the pieces of `child` does not depend on the blocks from
`p` on downwards. -/
theorem IsForest.exists_split_child (forest : t.IsForest) {s child p : Nat}
    (lists : t.Lists s child) (under : t.Below child p)
    (same : ∀ id, t.Below s id → ¬ t.Below p id → t'.get? id = t.get? id)
    (unit : String) (depth : Nat) (indent : String) :
    ∃ front back,
      t.piecesWithin unit (depth + 1) s indent
        = front ++ t.piecesWithin unit depth child (indent ++ unit) ++ back ∧
      t'.piecesWithin unit (depth + 1) s indent
        = front ++ t'.piecesWithin unit depth child (indent ++ unit) ++ back ∧
      ∀ q ∈ front ++ back, ¬ t.Below p q.block := by
  have above : ¬ t.Below p s := by
    intro h
    have := forest.le_of_below h
    have := forest.le_of_below under
    have := forest.behind s child (mem_listed.mp lists)
    omega
  obtain ⟨b, found⟩ := exists_get? (lt_size_of_mem_listed lists)
  have found' : t'.get? s = some b := (same s .refl above).trans found
  -- The list of `s` has `child` in one place, and the other places are not affected.
  obtain ⟨pre, post, split⟩ := List.append_of_mem (mem_listed.mp lists)
  obtain ⟨notPre, notPost⟩ := forest.not_mem_of_split split
  have others : ∀ c, c ∈ pre ∨ c ∈ post →
      t'.childPieces unit depth s (indent ++ unit) c
        = t.childPieces unit depth s (indent ++ unit) c ∧
      ∀ q ∈ t.childPieces unit depth s (indent ++ unit) c, ¬ t.Below p q.block := by
    intro c place
    refine forest.childPieces_of_ne lists under same unit depth _ ?_ ?_
    · rw [split, List.mem_append, List.mem_cons]
      tauto
    · rintro rfl
      exact place.elim notPre notPost
  have preSame : pre.flatMap (t'.childPieces unit depth s (indent ++ unit))
      = pre.flatMap (t.childPieces unit depth s (indent ++ unit)) :=
    List.flatMap_congr fun c mem => (others c (.inl mem)).1
  have postSame : post.flatMap (t'.childPieces unit depth s (indent ++ unit))
      = post.flatMap (t.childPieces unit depth s (indent ++ unit)) :=
    List.flatMap_congr fun c mem => (others c (.inr mem)).1
  rw [children_of_get? found] at split
  refine ⟨⟨s, .entry, indent ++ b.entry indent⟩ ::
      pre.flatMap (t.childPieces unit depth s (indent ++ unit)),
    post.flatMap (t.childPieces unit depth s (indent ++ unit)) ++
      [⟨s, .exit, indent ++ b.exit indent⟩], ?_, ?_, ?_⟩
  · rw [piecesWithin_succ found, split, List.flatMap_append, List.flatMap_cons]
    simp only [childPieces_block, List.append_assoc, List.cons_append]
  · rw [piecesWithin_succ found', split, List.flatMap_append, List.flatMap_cons, preSame, postSame]
    simp only [childPieces_block, List.append_assoc, List.cons_append]
  · intro q mem
    simp only [List.mem_append, List.mem_cons, List.mem_flatMap, List.not_mem_nil,
      or_false] at mem
    rcases mem with (rfl | ⟨c, place, piece⟩) | ⟨c, place, piece⟩ | rfl
    · exact above
    · exact (others c (.inl place)).2 q piece
    · exact (others c (.inr place)).2 q piece
    · exact above

/-- The pieces from a start on are those in front of a block below it, those of the block, and
those behind it. In a tree that differs only from that block on downwards, the pieces in front
and behind are the same. The induction is on the way down to the block. -/
theorem IsForest.exists_split (forest : t.IsForest) {s d p : Nat} (stands : t.StandsAt s d p)
    (same : ∀ id, t.Below s id → ¬ t.Below p id → t'.get? id = t.get? id)
    (unit : String) (depth : Nat) (indent : String) :
    ∃ front back,
      t.piecesWithin unit (d + depth) s indent = front ++
        t.piecesWithin unit depth p (indent ++ String.join (List.replicate d unit)) ++ back ∧
      t'.piecesWithin unit (d + depth) s indent = front ++
        t'.piecesWithin unit depth p (indent ++ String.join (List.replicate d unit)) ++ back ∧
      ∀ q ∈ front ++ back, ¬ t.Below p q.block := by
  induction stands generalizing indent with
  | here =>
      refine ⟨[], [], ?_, ?_, by simp⟩
      · simp
      · simp
  | @down s child d p lists stands ih =>
      -- On the way down one level is split off at a time, around the child that leads to `p`.
      obtain ⟨front₁, back₁, now₁, then₁, apart₁⟩ := forest.exists_split_child lists
        (below_of_standsAt stands) same unit (d + depth) indent
      obtain ⟨front₂, back₂, now₂, then₂, apart₂⟩ :=
        ih (fun id above => same id (.head lists above)) (indent ++ unit)
      have levels : indent ++ String.join (List.replicate (d + 1) unit)
          = indent ++ unit ++ String.join (List.replicate d unit) := by
        rw [List.replicate_succ, String.join_cons, String.append_assoc]
      rw [Nat.add_right_comm, levels]
      refine ⟨front₁ ++ front₂, back₂ ++ back₁, ?_, ?_, ?_⟩
      · rw [now₁, now₂]
        simp only [List.append_assoc]
      · rw [then₁, then₂]
        simp only [List.append_assoc]
      · intro q mem
        have places : q ∈ front₁ ++ back₁ ∨ q ∈ front₂ ++ back₂ := by
          simp only [List.mem_append] at mem ⊢
          tauto
        exact places.elim (apart₁ q) (apart₂ q)

/-! ## A line more -/

/-- A line that is added to a block comes last in its body. -/
theorem IsForest.exists_body (forest : t.IsForest) {p : Nat} {b : Block} {line : Statement}
    (found : t.get? p = some b) (found' : t'.get? p = some (b.extend (.statement line)))
    (same : ∀ id, id ≠ p → t'.get? id = t.get? id) (unit : String) (depth : Nat)
    (indent : String) :
    ∃ inside,
      t.piecesWithin unit (depth + 1) p indent = ⟨p, .entry, indent ++ b.entry indent⟩ ::
        inside ++ [⟨p, .exit, indent ++ b.exit indent⟩] ∧
      t'.piecesWithin unit (depth + 1) p indent =
        ⟨p, .entry, indent ++ (b.extend (.statement line)).entry indent⟩ ::
        inside ++ [⟨p, .body, indent ++ unit ++ line.text ++ "\n"⟩,
          ⟨p, .exit, indent ++ (b.extend (.statement line)).exit indent⟩] ∧
      ∀ q ∈ inside, q.block = p → q.part = .body := by
  have lower : ∀ child, .block child ∈ b.children → p < child := by
    intro child mem
    rw [← children_of_get? found] at mem
    exact (forest.behind p child mem).1
  -- All that is below a child has a larger handle than `p`, and is what it was.
  have kept : b.children.flatMap (t'.childPieces unit depth p (indent ++ unit))
      = b.children.flatMap (t.childPieces unit depth p (indent ++ unit)) := by
    refine List.flatMap_congr ?_
    intro c mem
    cases c with
    | block child =>
        refine piecesWithin_congr unit depth _ fun low under => same low ?_
        have := forest.le_of_below under
        have := lower child mem
        omega
    | statement line => rfl
  refine ⟨b.children.flatMap (t.childPieces unit depth p (indent ++ unit)),
    piecesWithin_succ found _ _ _, ?_, ?_⟩
  · have children : (b.extend (.statement line)).children = b.children ++ [.statement line] := rfl
    rw [piecesWithin_succ found', children, List.flatMap_append, kept, List.flatMap_singleton]
    simp only [childPieces_statement, List.append_assoc, List.cons_append, List.nil_append]
  · -- Of the pieces in the body those of the block itself are lines.
    intro q mem own
    obtain ⟨c, listed, piece⟩ := List.mem_flatMap.mp mem
    cases c with
    | block child =>
        have := forest.le_of_below (below_of_mem_piecesWithin piece)
        have := lower child listed
        omega
    | statement line =>
        cases List.mem_singleton.mp piece
        rfl

/-- A line that is added is the last child of its block, and no other block has changed. -/
theorem get?_of_addStatement {p : Nat} {text : String} {role : Role} {b : Block}
    (edited : t.edit (.addStatement p text role) = some t') (found : t.get? p = some b) :
    t'.get? p = some (b.extend (.statement { text, owner := p, role })) ∧
      ∀ id, id ≠ p → t'.get? id = t.get? id := by
  constructor
  · rw [get?_edit edited (lt_size_of_get? found), found]
    exact congrArg some (if_pos rfl)
  · intro id other
    by_cases old : id < t.size
    · have untouched : id ≠ (Edit.addStatement p text role).target := other
      rw [get?_edit edited old]
      simp only [if_neg untouched, Option.map_id']
    · -- A foreign handle stays foreign.
      have size : t'.size = t.size := size_edit edited
      rw [get?_eq_none_iff.mpr (Nat.le_of_not_lt old), get?_eq_none_iff, size]
      exact Nat.le_of_not_lt old

/-- So from a start above the block there is one more piece, and it stands in front of the
closing of the block. -/
theorem IsForest.exists_insertion (forest : t.IsForest) {s d p : Nat} {b : Block}
    {line : Statement} (stands : t.StandsAt s d p) (found : t.get? p = some b)
    (found' : t'.get? p = some (b.extend (.statement line)))
    (same : ∀ id, id ≠ p → t'.get? id = t.get? id) (size : t'.size = t.size)
    (unit indent here : String) (level : here = indent ++ String.join (List.replicate d unit)) :
    ∃ front inside back,
      t.pieces unit s indent = front ++ ⟨p, .entry, here ++ b.entry here⟩ :: inside ++
        ⟨p, .exit, here ++ b.exit here⟩ :: back ∧
      t'.pieces unit s indent =
        front ++ ⟨p, .entry, here ++ (b.extend (.statement line)).entry here⟩ :: inside ++
        ⟨p, .body, here ++ unit ++ line.text ++ "\n"⟩ ::
        ⟨p, .exit, here ++ (b.extend (.statement line)).exit here⟩ :: back ∧
      ∀ q ∈ front ++ inside ++ back, q.block = p → q.part = .body := by
  have known := lt_size_of_get? found
  have deep := forest.add_le_of_standsAt stands
  -- The walk has `d` levels down to `p`, and there are blocks enough for one level more.
  obtain ⟨depth, enough⟩ : ∃ depth, t.size = d + (depth + 1) := ⟨t.size - d - 1, by omega⟩
  obtain ⟨front, back, before, after, apart⟩ := forest.exists_split stands
    (fun id _ notBelow => same id fun eq => notBelow (eq ▸ .refl)) unit (depth + 1) indent
  obtain ⟨inside, own, own', lines⟩ := forest.exists_body found found' same unit depth here
  rw [← level] at before after
  refine ⟨front, inside, back, ?_, ?_, ?_⟩
  · rw [BlockTree.pieces, enough, before, own]
    simp only [List.append_assoc, List.cons_append, List.nil_append]
  · rw [BlockTree.pieces, size, enough, after, own']
    simp only [List.append_assoc, List.cons_append, List.nil_append]
  · intro q mem own
    rw [List.mem_append, List.mem_append] at mem
    rcases mem with (outside | within) | outside
    · exact absurd (own ▸ .refl) (apart q (List.mem_append_left _ outside))
    · exact lines q within own
    · exact absurd (own ▸ .refl) (apart q (List.mem_append_right _ outside))

/-- From a start that the block does not stand below, its change does not show. -/
theorem flatten_eq_of_forall_not_standsAt {s p : Nat} (nowhere : ∀ d, ¬ t.StandsAt s d p)
    (same : ∀ id, id ≠ p → t'.get? id = t.get? id) (size : t'.size = t.size)
    (unit indent : String) : t'.flatten unit s indent = t.flatten unit s indent := by
  have pieces : t'.pieces unit s indent = t.pieces unit s indent := by
    rw [BlockTree.pieces, BlockTree.pieces, size]
    refine piecesWithin_congr unit _ indent fun low under => same low ?_
    rintro rfl
    obtain ⟨d, stands⟩ := exists_standsAt under
    exact nowhere d stands
  rw [flatten_eq, flatten_eq, size, pieces]

/-- **A new line shows in one place.** From a start that the block does not stand below, the
output is what it was. Otherwise there is one more piece, the line at the indentation of the
block's body, immediately in front of the closing of the block. All other pieces are the
same, except that an `if` or `for` that had at most one child opens and closes in another
way. -/
theorem addStatement_local {t : BlockTree} (reachable : t.Reachable) {p : Nat}
    (known : p < t.size) (text : String) (role : Role) (unit : String) (s : Nat)
    (indent : String) :
    let made := t.after (.addStatement p text role)
    ((∀ d, ¬ t.StandsAt s d p) → made.flatten unit s indent = t.flatten unit s indent) ∧
    ∀ d, t.StandsAt s d p → ∃ b front opening inside closing back opening' closing',
      t.get? p = some b ∧
      t.pieces unit s indent
        = front ++ ⟨p, .entry, opening⟩ :: inside ++ ⟨p, .exit, closing⟩ :: back ∧
      made.pieces unit s indent
        = front ++ ⟨p, .entry, opening'⟩ :: inside ++
          ⟨p, .body, indent ++ String.join (List.replicate (d + 1) unit) ++ text ++ "\n"⟩ ::
          ⟨p, .exit, closing'⟩ :: back ∧
      t.flatten unit s indent = some ((t.pieces unit s indent).map Piece.text) ∧
      made.flatten unit s indent = some ((made.pieces unit s indent).map Piece.text) ∧
      (∀ q ∈ front ++ inside ++ back, q.block = p → q.part = .body) ∧
      (opening' ≠ opening ↔ b.kind.elidesBraces = true ∧ b.children.length < 2) ∧
      (closing' ≠ closing ↔ b.kind.elidesBraces = true ∧ b.children.length < 2) := by
  intro made
  have forest := reachable.isForest
  obtain ⟨b, found⟩ := exists_get? known
  have edited : t.edit (.addStatement p text role) = some made := edit_after known
  have size : made.size = t.size := size_edit edited
  obtain ⟨found', same⟩ := get?_of_addStatement edited found
  constructor
  · intro nowhere
    exact flatten_eq_of_forall_not_standsAt nowhere same size unit indent
  · intro d stands
    have deep := forest.add_le_of_standsAt stands
    obtain ⟨front, inside, back, before, after, own⟩ := forest.exists_insertion stands found
      found' same size unit indent _ rfl
    -- The line stands one level deeper than the block it is in.
    have level : indent ++ String.join (List.replicate d unit) ++ unit
        = indent ++ String.join (List.replicate (d + 1) unit) := by
      rw [List.replicate_succ', String.append_assoc]
      simp
    rw [level] at after
    refine ⟨b, front, _, inside, _, back, _, _, found, before, after,
      flatten_of_known (by omega) unit indent, flatten_of_known (by omega) unit indent, own, ?_, ?_⟩
    · rw [Ne, String.append_right_inj]
      exact (Block.showsBraces_entry b.kind _).extend_ne_iff _
    · rw [Ne, String.append_right_inj]
      exact (Block.showsBraces_exit b.kind _).extend_ne_iff _

/-- A loop with one line in an `if`, and a detached `switch`. -/
def braceSample : BlockTree :=
  (ofRoot (.ifThen "a")).afterAll
    [.addBlock 0 (.forLoop "i" "j" "k"), .addStatement 1 "f();" .body, .addBlock 0 (.switchOn "x"),
     .removeLastBlock 0]

/-- A second line in the loop makes it get braces, and does not show in the `switch`. -/
theorem braceSample_addStatement_local :
    braceSample.Reachable ∧ 1 < braceSample.size ∧ braceSample.StandsAt 0 1 1 ∧
    (braceSample.after (.addStatement 1 "g();" .body)).flatten " " 2 ""
      = braceSample.flatten " " 2 "" ∧
    ∃ front opening inside closing back opening' closing',
      braceSample.flatten " " 0 "" = some (front ++ opening :: inside ++ closing :: back) ∧
      (braceSample.after (.addStatement 1 "g();" .body)).flatten " " 0 ""
        = some (front ++ opening' :: inside ++ "  g();\n" :: closing' :: back) ∧
      opening' ≠ opening ∧ closing' ≠ closing := by
  have reachable : braceSample.Reachable := ⟨_, _, rfl⟩
  have known : 1 < braceSample.size := by decide
  have listed : 1 ∈ braceSample.listed 0 := by decide
  have stands : braceSample.StandsAt 0 1 1 := .down listed .here
  have nowhere : ∀ d, ¬ braceSample.StandsAt 2 d 1 := by
    intro d other
    have := reachable.isForest.add_le_of_standsAt other
    omega
  obtain ⟨unseen, -⟩ := addStatement_local reachable known "g();" .body " " 2 ""
  obtain ⟨-, seen⟩ := addStatement_local reachable known "g();" .body " " 0 ""
  obtain ⟨b, front, opening, inside, closing, back, opening', closing', found, before, after, text,
    text', -, opens, closes⟩ := seen 1 stands
  have loop : braceSample.get? 1
      = some ⟨.forLoop "i" "j" "k", [.statement ⟨"f();", 1, .body⟩]⟩ := by decide
  cases loop.symm.trans found
  refine ⟨reachable, known, stands, unseen nowhere, front.map Piece.text, opening,
    inside.map Piece.text, closing, back.map Piece.text, opening', closing', ?_, ?_,
    opens.mpr (by decide), closes.mpr (by decide)⟩
  · rw [text, before]
    simp only [List.map_append, List.map_cons]
  · have line : "" ++ String.join (List.replicate 2 " ") ++ "g();" ++ "\n" = "  g();\n" := by decide
    rw [text', after, line]
    simp only [List.map_append, List.map_cons]

end BlockTree

end ClassOutline
