import ClassOutline.Proofs.BlockEdits
import ClassOutline.Proofs.BlockPieces
import Mathlib.Data.List.Nodup
import Mathlib.Data.List.Pairwise
import Mathlib.Logic.Relation

/-!
A tree of blocks is always a forest, and the renderer can rely on it.

Nothing in the type of trees keeps a block from listing itself, or two blocks from listing
a third. That it never happens is a property of the edits, with detached blocks included:
a block is listed behind the block that lists it, it is listed once, and a line names the
block that it stands in (`IsForest`). Every edit is of one shape (`children_edit`), so
there is one lemma about what such a change keeps (`IsForest.grow`).

In a forest a walk comes to an end and finds every block it asks for (`IsForest.walk_iff`),
since handles only get larger on the way down; and it comes to no block twice
(`IsForest.nodup_visited`), since two blocks with a common descendant stand one below the
other, and neighbours do not.
-/

set_option autoImplicit false

namespace ClassOutline

/-! ## Forests -/

/-- The handle of a child that is a block. -/
def Child.block? : Child → Option Nat
  | block id => some id
  | statement _ => none

/-- The children that an edit adds to its block. -/
def Edit.added (t : BlockTree) : Edit → List Child
  | addBlock _ _ => [.block t.size]
  | addStatement parent text role => [.statement { text, owner := parent, role }]
  | removeLastBlock _ | removeLastStatement _ => []

/-- An edit adds at the end, or takes the last child away; nothing is put in between. -/
theorem Edit.change_sublist (e : Edit) (t : BlockTree) (children : List Child) :
    (e.change t children).Sublist (children ++ e.added t) := by
  cases e with
  | addBlock parent kind => exact List.Sublist.refl _
  | addStatement parent text role => exact List.Sublist.refl _
  | removeLastBlock parent =>
      rw [added, List.append_nil]
      exact List.dropLast_sublist children
  | removeLastStatement parent =>
      rw [added, List.append_nil]
      exact List.dropLast_sublist children

namespace BlockTree

/-- The blocks that a block lists, in order. -/
def listed (t : BlockTree) (id : Nat) : List Nat := (t.children id).filterMap Child.block?

/-- The blocks that are listed anywhere, one list after the other. -/
def allListed (t : BlockTree) : List Nat := (List.range t.size).flatMap t.listed

/-- Every block is listed at most once and by an earlier block, and every line names the
block that lists it. -/
structure IsForest (t : BlockTree) : Prop where
  /-- a listed block is there, and stands behind the block that lists it -/
  behind : ∀ id child, .block child ∈ t.children id → id < child ∧ child < t.size
  /-- no block is listed twice, in one list or in two -/
  once : t.allListed.Nodup
  /-- the root is listed nowhere -/
  root : 0 ∉ t.allListed
  /-- a line belongs to the block that lists it -/
  owned : ∀ id line, .statement line ∈ t.children id → line.owner = id

/-- The blocks listed are the children that are blocks. -/
theorem mem_listed {t : BlockTree} {id child : Nat} :
    child ∈ t.listed id ↔ .block child ∈ t.children id := by
  unfold listed
  rw [List.mem_filterMap]
  constructor
  · rintro ⟨c, mem, named⟩
    cases c with
    | block id =>
        cases named
        exact mem
    | statement line => cases named
  · intro mem
    exact ⟨_, mem, rfl⟩

/-- A foreign handle lists nothing. -/
theorem children_foreign {t : BlockTree} {id : Nat} (foreign : t.size ≤ id) :
    t.children id = [] := by
  rw [children, get?_eq_none_iff.mpr foreign]

/-- Only the tree's own blocks list anything. -/
theorem lt_size_of_mem_listed {t : BlockTree} {id child : Nat} (h : child ∈ t.listed id) :
    id < t.size := by
  by_contra foreign
  rw [listed, children_foreign (Nat.le_of_not_lt foreign)] at h
  cases h

/-- What is listed anywhere is listed by some block. -/
theorem mem_allListed {t : BlockTree} {child : Nat} :
    child ∈ t.allListed ↔ ∃ id, child ∈ t.listed id := by
  rw [allListed, List.mem_flatMap]
  constructor
  · rintro ⟨id, -, mem⟩
    exact ⟨id, mem⟩
  · rintro ⟨id, mem⟩
    exact ⟨id, List.mem_range.mpr (lt_size_of_mem_listed mem), mem⟩

/-- Listed once means once in each list, and in one list only. -/
theorem nodup_allListed_iff {t : BlockTree} :
    t.allListed.Nodup ↔ (∀ id, (t.listed id).Nodup) ∧
      ∀ id id' child, child ∈ t.listed id → child ∈ t.listed id' → id = id' := by
  unfold allListed
  rw [List.nodup_flatMap]
  constructor
  · rintro ⟨each, apart⟩
    refine ⟨?_, ?_⟩
    · intro id
      by_cases known : id < t.size
      · exact each id (List.mem_range.mpr known)
      · rw [listed, children_foreign (Nat.le_of_not_lt known)]
        exact List.nodup_nil
    · intro id id' child mem mem'
      by_contra differ
      -- The library has it for pairs in order; being disjoint does not depend on the order.
      have symm : Std.Symm (Function.onFun List.Disjoint t.listed) :=
        ⟨fun _ _ disjoint _ mem mem' => disjoint mem' mem⟩
      have disjoint := apart.forall (List.mem_range.mpr (lt_size_of_mem_listed mem))
        (List.mem_range.mpr (lt_size_of_mem_listed mem')) differ
      exact disjoint mem mem'
  · rintro ⟨each, apart⟩
    refine ⟨fun id _ => each id, List.nodup_range.imp ?_⟩
    intro id id' differ child mem mem'
    exact differ (apart id id' child mem mem')

/-! ## Edits keep forests -/

/-- The tree of one block is a forest. -/
theorem isForest_ofRoot (kind : BlockKind) : (ofRoot kind).IsForest := by
  have bare : ∀ id, (ofRoot kind).children id = [] := by
    intro id
    cases id with
    | zero => rfl
    | succ id => exact children_foreign (Nat.le_add_left 1 id)
  have nothing : ∀ id, (ofRoot kind).listed id = [] := by
    intro id
    rw [listed, bare]
    rfl
  -- Nothing is listed, so every part is about members of an empty list.
  refine ⟨?_, nodup_allListed_iff.mpr ⟨?_, ?_⟩, ?_, ?_⟩
  · intro id child mem
    rw [bare] at mem
    cases mem
  · intro id
    rw [nothing]
    exact List.nodup_nil
  · intro id id' child mem
    rw [nothing] at mem
    cases mem
  · intro mem
    obtain ⟨id, mem⟩ := mem_allListed.mp mem
    rw [nothing] at mem
    cases mem
  · intro id line mem
    rw [bare] at mem
    cases mem

/-- A forest stays one if children are dropped anywhere and one block gets new ones, as long
as these are lines of that block or blocks that were not there before. -/
theorem IsForest.grow {t made : BlockTree} (forest : t.IsForest) {parent : Nat} {new : List Child}
    (size : t.size ≤ made.size)
    (kept : ∀ id, (made.children id).Sublist
      (t.children id ++ if id = parent then new else []))
    (fresh : ∀ child, .block child ∈ new → t.size ≤ child ∧ parent < child ∧ child < made.size)
    (distinct : (new.filterMap Child.block?).Nodup)
    (owned : ∀ line, .statement line ∈ new → line.owner = parent) : made.IsForest := by
  obtain ⟨each, apart⟩ := nodup_allListed_iff.mp forest.once
  -- A child that is found afterwards was there before, or is new.
  have found : ∀ id child, child ∈ made.children id →
      child ∈ t.children id ∨ id = parent ∧ child ∈ new := by
    intro id child mem
    rcases List.mem_append.mp ((kept id).mem mem) with old | added
    · exact .inl old
    · by_cases here : id = parent
      · rw [if_pos here] at added
        exact .inr ⟨here, added⟩
      · rw [if_neg here] at added
        cases added
  have behind : ∀ id child, .block child ∈ made.children id → id < child ∧ child < made.size := by
    intro id child mem
    rcases found id _ mem with old | ⟨rfl, added⟩
    · have := forest.behind id child old
      omega
    · have := fresh child added
      omega
  refine ⟨behind, nodup_allListed_iff.mpr ⟨?_, ?_⟩, ?_, ?_⟩
  · intro id
    have sub := (kept id).filterMap Child.block?
    refine List.Nodup.sublist sub ?_
    rw [List.filterMap_append]
    by_cases here : id = parent
    · rw [if_pos here]
      refine List.Nodup.append (each id) distinct ?_
      intro child old added
      obtain ⟨-, range⟩ := forest.behind id child (mem_listed.mp old)
      obtain ⟨c, mem, named⟩ := List.mem_filterMap.mp added
      cases c with
      | block id =>
          cases named
          have := fresh child mem
          omega
      | statement line => cases named
    · rw [if_neg here, List.filterMap_nil, List.append_nil]
      exact each id
  · intro id id' child mem mem'
    rw [mem_listed] at mem mem'
    rcases found id _ mem with old | ⟨rfl, added⟩
    · rcases found id' _ mem' with old' | ⟨rfl, added'⟩
      · exact apart id id' child (mem_listed.mpr old) (mem_listed.mpr old')
      · have := forest.behind id child old
        have := fresh child added'
        omega
    · rcases found id' _ mem' with old' | ⟨rfl, added'⟩
      · have := forest.behind id' child old'
        have := fresh child added
        omega
      · rfl
  · intro mem
    obtain ⟨id, mem⟩ := mem_allListed.mp mem
    have := behind id 0 (mem_listed.mp mem)
    omega
  · intro id line mem
    rcases found id _ mem with old | ⟨rfl, added⟩
    · exact forest.owned id line old
    · exact owned line added

/-- An edit adds a line of its block or a new block, or takes a child away. -/
theorem IsForest.edit {t made : BlockTree} (forest : t.IsForest) {e : Edit}
    (h : t.edit e = some made) : made.IsForest := by
  have known : e.target < t.size := by
    by_contra foreign
    rw [edit_eq_none_iff.mpr foreign] at h
    cases h
  have size := size_edit h
  -- What an edit leaves of a list of children is a part of the old list and of what it adds.
  have kept : ∀ id, (made.children id).Sublist
      (t.children id ++ if id = e.target then e.added t else []) := by
    intro id
    rw [children_edit h]
    by_cases here : id = e.target
    · rw [if_pos here, if_pos here]
      exact e.change_sublist t _
    · rw [if_neg here, if_neg here, List.append_nil]
  cases e with
  | addBlock parent kind =>
      refine forest.grow (by omega) kept ?_ (List.nodup_singleton _) ?_
      · intro child mem
        cases List.mem_singleton.mp mem
        exact ⟨Nat.le_refl _, known, size ▸ Nat.lt_succ_self _⟩
      · intro line mem
        cases List.mem_singleton.mp mem
  | addStatement parent text role =>
      refine forest.grow (by omega) kept ?_ List.nodup_nil ?_
      · intro child mem
        cases List.mem_singleton.mp mem
      · intro line mem
        cases List.mem_singleton.mp mem
        rfl
  | removeLastBlock parent =>
      exact forest.grow (by omega) kept (by simp [Edit.added]) List.nodup_nil (by simp [Edit.added])
  | removeLastStatement parent =>
      exact forest.grow (by omega) kept (by simp [Edit.added]) List.nodup_nil (by simp [Edit.added])

/-- Whatever was done to it, a tree is a forest. -/
theorem Reachable.isForest {t : BlockTree} (reachable : t.Reachable) : t.IsForest :=
  reachable.induction isForest_ofRoot fun _ _ _ run forest => forest.edit run

/-! ## Descendants -/

/-- One block lists another. -/
def Lists (t : BlockTree) (id child : Nat) : Prop := child ∈ t.listed id

/-- A block stands somewhere below another, or is that block. -/
def Below (t : BlockTree) : Nat → Nat → Prop := Relation.ReflTransGen t.Lists

/-- Handles grow on the way down. -/
theorem IsForest.le_of_below {t : BlockTree} (forest : t.IsForest) {id low : Nat}
    (h : t.Below id low) : id ≤ low := by
  induction h with
  | refl => exact Nat.le_refl id
  | tail _ last ih =>
      have := forest.behind _ _ (mem_listed.mp last)
      omega

/-- Of two blocks above a third one stands below the other. -/
theorem IsForest.below_or_below {t : BlockTree} (forest : t.IsForest) {a b low : Nat}
    (ha : t.Below a low) (hb : t.Below b low) : t.Below a b ∨ t.Below b a := by
  have oneParent : Relator.RightUnique (Function.swap t.Lists) := by
    intro child id id' mem mem'
    exact (nodup_allListed_iff.mp forest.once).2 id id' child mem mem'
  rcases Relation.ReflTransGen.total_of_right_unique oneParent
    (Relation.reflTransGen_swap.mpr ha) (Relation.reflTransGen_swap.mpr hb) with up | up
  · exact .inr (Relation.reflTransGen_swap.mp up)
  · exact .inl (Relation.reflTransGen_swap.mp up)

/-- Two children of one block do not stand below each other. -/
theorem IsForest.eq_of_below {t : BlockTree} (forest : t.IsForest) {id a b : Nat}
    (ha : a ∈ t.listed id) (hb : b ∈ t.listed id) (h : t.Below a b) : a = b := by
  rcases Relation.ReflTransGen.cases_tail h with same | ⟨parent, above, lists⟩
  · exact same.symm
  · -- The only block that lists `b` is `id`, which is in front of `a`.
    have only := (nodup_allListed_iff.mp forest.once).2 parent id b lists hb
    have front := forest.behind id a (mem_listed.mp ha)
    have := forest.le_of_below (only ▸ above)
    omega

/-! ## The walk of the renderer -/

/-- As many levels as there are handles left are enough: each level down, the handle is
larger. -/
theorem IsForest.walk_piecesWithin {t : BlockTree} (forest : t.IsForest) (unit : String) :
    ∀ (depth id : Nat) (indent : String), id < t.size → t.size ≤ id + depth →
      t.Walk unit id indent (t.piecesWithin unit depth id indent) := by
  intro depth
  induction depth with
  | zero =>
      intro id indent known enough
      omega
  | succ depth ih =>
      intro id indent known enough
      obtain ⟨b, found⟩ := exists_get? known
      -- The children one after the other; each listed block has a larger handle, so the bound that
      -- is left is still enough for it.
      have inside : ∀ children : List Child, (∀ c ∈ children, c ∈ b.children) →
          t.WalkInside unit id (indent ++ unit) children
            (children.flatMap (t.childPieces unit depth id (indent ++ unit))) := by
        intro children
        induction children with
        | nil =>
            intro _
            exact .nil
        | cons c children rest =>
            intro all
            rw [List.forall_mem_cons] at all
            rw [List.flatMap_cons]
            cases c with
            | block child =>
                have mem : .block child ∈ t.children id := children_of_get? found ▸ all.1
                obtain ⟨lower, known'⟩ := forest.behind id child mem
                exact .block (ih child _ known' (by omega)) (rest all.2)
            | statement line => exact .statement (rest all.2)
      rw [piecesWithin_succ found]
      exact .block found (inside b.children fun _ mem => mem)

/-- In a forest the walk from any block comes to an end, and the pieces it puts out are the
pieces of that block. -/
theorem IsForest.walk_iff {t : BlockTree} (forest : t.IsForest) (unit : String) {id : Nat}
    (known : id < t.size) (indent : String) (ps : List Piece) :
    t.Walk unit id indent ps ↔ ps = t.pieces unit id indent := by
  have walk : t.Walk unit id indent (t.pieces unit id indent) :=
    forest.walk_piecesWithin unit t.size id indent known (Nat.le_add_left _ _)
  constructor
  · intro other
    exact other.unique walk
  · rintro rfl
    exact walk

/-! ## The blocks that a walk visits -/

/-- The blocks that are opened by a row of pieces, in order. -/
def visited (ps : List Piece) : List Nat :=
  (ps.filter fun p => p.part = .entry).map Piece.block

/-- A row of rows visits what the rows visit, one after the other. -/
theorem visited_append (ps qs : List Piece) : visited (ps ++ qs) = visited ps ++ visited qs := by
  rw [visited, List.filter_append, List.map_append]
  rfl

/-- A walk visits the block it starts from, and what it visits below the blocks listed
there. -/
theorem visited_piecesWithin {t : BlockTree} {id : Nat} (known : id < t.size) (unit : String)
    (depth : Nat) (indent : String) :
    visited (t.piecesWithin unit (depth + 1) id indent) = id :: (t.listed id).flatMap fun child =>
      visited (t.piecesWithin unit depth child (indent ++ unit)) := by
  obtain ⟨b, found⟩ := exists_get? known
  -- Lines open no block, and a block visits what its own walk does.
  have inside : ∀ children : List Child,
      visited (children.flatMap (t.childPieces unit depth id (indent ++ unit)))
        = (children.filterMap Child.block?).flatMap fun child =>
          visited (t.piecesWithin unit depth child (indent ++ unit)) := by
    intro children
    induction children with
    | nil => rfl
    | cons c children ih =>
        rw [List.flatMap_cons, visited_append, ih]
        cases c <;> rfl
  rw [piecesWithin_succ found, visited_append, listed, children_of_get? found, ← inside]
  exact List.append_nil _

/-- A walk visits no block twice, and only blocks below the one it starts from. -/
theorem IsForest.nodup_visited_piecesWithin {t : BlockTree} (forest : t.IsForest) (unit : String) :
    ∀ (depth id : Nat) (indent : String), id < t.size → t.size ≤ id + depth →
      (visited (t.piecesWithin unit depth id indent)).Nodup ∧
      ∀ low ∈ visited (t.piecesWithin unit depth id indent), t.Below id low := by
  intro depth
  induction depth with
  | zero =>
      intro id indent known enough
      omega
  | succ depth ih =>
      intro id indent known enough
      -- What is visited from a child on is visited once, and stands below the child.
      have child : ∀ c ∈ t.listed id,
          (visited (t.piecesWithin unit depth c (indent ++ unit))).Nodup ∧
          ∀ low ∈ visited (t.piecesWithin unit depth c (indent ++ unit)), t.Below c low := by
        intro c mem
        obtain ⟨lower, known'⟩ := forest.behind id c (mem_listed.mp mem)
        exact ih c _ known' (by omega)
      have below : ∀ low ∈ (t.listed id).flatMap fun c =>
          visited (t.piecesWithin unit depth c (indent ++ unit)),
          ∃ c ∈ t.listed id, t.Below c low := by
        intro low mem
        obtain ⟨c, listed, visit⟩ := List.mem_flatMap.mp mem
        exact ⟨c, listed, (child c listed).2 low visit⟩
      rw [visited_piecesWithin known, List.nodup_cons, List.nodup_flatMap, List.forall_mem_cons]
      refine ⟨⟨?_, fun c mem => (child c mem).1, ?_⟩, .refl, ?_⟩
      · intro again
        obtain ⟨c, listed, under⟩ := below id again
        have := forest.behind id c (mem_listed.mp listed)
        have := forest.le_of_below under
        omega
      · have distinct := (nodup_allListed_iff.mp forest.once).1 id
        refine List.Pairwise.imp_of_mem ?_ distinct
        intro a b ha hb differ low visitA visitB
        rcases forest.below_or_below ((child a ha).2 low visitA) ((child b hb).2 low visitB) with
          under | under
        · exact differ (forest.eq_of_below ha hb under)
        · exact differ (forest.eq_of_below hb ha under).symm
      · intro low mem
        obtain ⟨c, listed, under⟩ := below low mem
        exact .head listed under

/-- In a forest a walk visits no block twice. -/
theorem IsForest.nodup_visited {t : BlockTree} (forest : t.IsForest) (unit : String) {id : Nat}
    (known : id < t.size) (indent : String) : (visited (t.pieces unit id indent)).Nodup :=
  (forest.nodup_visited_piecesWithin unit t.size id indent known (Nat.le_add_left _ _)).1

/-- **The blocks of a tree are always a forest.** This holds after any edits, failed ones and
edits of detached blocks among them. Hence the renderer, started at any block, finds every
block it asks for and comes to an end, having visited no block twice. And an edit fails
exactly on a foreign handle, and then the tree is what it was. -/
theorem forest_of_reachable {t : BlockTree} (reachable : t.Reachable) :
    t.IsForest ∧
    (∀ (unit : String) (id : Nat) (indent : String), id < t.size →
      (∀ ps, t.Walk unit id indent ps ↔ ps = t.pieces unit id indent) ∧
      t.flatten unit id indent = some ((t.pieces unit id indent).map Piece.text) ∧
      (visited (t.pieces unit id indent)).Nodup) ∧
    ∀ e : Edit,
      ((e.perform.on t).1 = none ↔ ¬ e.target < t.size) ∧
      ((e.perform.on t).1 = none → (e.perform.on t).2 = t) := by
  have forest := reachable.isForest
  refine ⟨forest, ?_, ?_⟩
  · intro unit id indent known
    exact ⟨forest.walk_iff unit known indent, flatten_of_known known unit indent,
      forest.nodup_visited unit known indent⟩
  · intro e
    rw [← edit_eq_none_iff, e.perform_on]
    cases t.edit e with
    | some made => simp
    | none => simp

/-- A block that is detached and goes on to be edited. -/
def detachedSample : BlockTree :=
  (ofRoot (.ifThen "a")).afterAll
    [.addBlock 0 (.switchOn "x"), .addStatement 1 "f();" .body, .removeLastBlock 0,
     .addBlock 1 (.caseOf "1"), .addStatement 7 "g();" .body]

/-- The walk from the detached block, and an edit with a handle that was never given out. -/
theorem detachedSample_forest_of_reachable :
    detachedSample.IsForest ∧ 1 < detachedSample.size ∧
    detachedSample.Walk " " 1 "" (detachedSample.pieces " " 1 "") ∧
    visited (detachedSample.pieces " " 1 "") = [1, 2] ∧
    [1, 2].Nodup ∧
    ((Edit.addBlock 3 (.caseOf "2")).perform.on detachedSample).2 = detachedSample := by
  obtain ⟨forest, walks, edits⟩ := forest_of_reachable (t := detachedSample) ⟨_, _, rfl⟩
  have known : 1 < detachedSample.size := by decide
  obtain ⟨walk, -, once⟩ := walks " " 1 "" known
  obtain ⟨fails, unchanged⟩ := edits (.addBlock 3 (.caseOf "2"))
  have visits : visited (detachedSample.pieces " " 1 "") = [1, 2] := by decide
  refine ⟨forest, known, (walk _).mpr rfl, visits, visits ▸ once, ?_⟩
  exact unchanged (fails.mpr (by decide))

end BlockTree

end ClassOutline
