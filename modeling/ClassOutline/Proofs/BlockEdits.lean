import ClassOutline.Block.Tree

/-!
Editing a tree of blocks, one step at a time.

The operations on a tree are programs that change it in place (`Mutation`). When a program
comes upon a foreign handle it stops there, and what it did to the tree before that stays.
So it is a fact, and not a convention, that a failing edit changes nothing. The reason is
that every program looks its handle up before it writes.

The four edits have one description in common (`BlockTree.edit`, `Edit.perform_on`):
they fail exactly on foreign handles, and otherwise change the list of one block, by
adding a child at its end or by taking the last one away. What is proved of trees under
edits is proved from this description.
-/

set_option autoImplicit false

namespace ClassOutline

/-! ## What a program does -/

namespace Mutation

variable {α β : Type}

/-- A program that fails in its first part leaves the tree as that part did. -/
theorem on_bind (p : Mutation α) (f : α → Mutation β) (t : BlockTree) :
    (p >>= f).on t = match p.on t with
      | (some x, left) => (f x).on left
      | (none, left) => (none, left) := by
  have unfolded : (p >>= f).on t = ((match (p.on t).1 with
      | some x => (f x).run
      | none => pure none).run (p.on t).2).run := rfl
  rw [unfolded]
  rcases p.on t with ⟨_ | x, left⟩
  · rfl
  · rfl

theorem on_get (t : BlockTree) : (get : Mutation BlockTree).on t = (some t, t) := rfl

/-- An update fails at a foreign handle, and then the tree is untouched. -/
theorem on_onChildren (id : Nat) (f : List Child → List Child) (t : BlockTree) :
    (onChildren id f).on t = match t.updateChildren id f with
      | some changed => (some (), changed)
      | none => (none, t) := by
  rw [onChildren, on_bind, on_get]
  dsimp only
  cases t.updateChildren id f with
  | some changed => rfl
  | none => rfl

/-- A program that begins by changing children stops on a foreign handle, and has done nothing
by then. -/
theorem on_onChildren_bind (id : Nat) (f : List Child → List Child) (p : Mutation α)
    (t : BlockTree) :
    (onChildren id f >>= fun _ => p).on t = match t.updateChildren id f with
      | some changed => p.on changed
      | none => (none, t) := by
  rw [on_bind, on_onChildren]
  cases t.updateChildren id f with
  | some changed => rfl
  | none => rfl

end Mutation

/-! ## Edits -/

/-- The four ways to change a tree. -/
inductive Edit where
  | addBlock (parent : Nat) (kind : BlockKind)
  | addStatement (parent : Nat) (text : String) (role : Role)
  | removeLastBlock (parent : Nat)
  | removeLastStatement (parent : Nat)
  deriving DecidableEq, Repr

/-- What an edit answers. -/
inductive Reply where
  /-- the handle of a new block -/
  | handle (id : Nat)
  | done
  /-- the child that was taken away -/
  | removed (child : Option Child)
  deriving DecidableEq, Repr

namespace Edit

/-- The block that an edit is about. -/
def target : Edit → Nat
  | addBlock parent _ | addStatement parent _ _ | removeLastBlock parent
  | removeLastStatement parent => parent

/-- The program of an edit. -/
def perform : Edit → Mutation Reply
  | addBlock parent kind => do
      let id ← Mutation.addBlock parent kind
      pure (.handle id)
  | addStatement parent text role => do
      Mutation.addStatement parent text role
      pure .done
  | removeLastBlock parent => do
      Mutation.removeLastBlock parent
      pure .done
  | removeLastStatement parent => do
      let child ← Mutation.removeLastStatement parent
      pure (.removed child)

/-- The answer of an edit that does not fail. -/
def reply (t : BlockTree) : Edit → Reply
  | addBlock _ _ => .handle t.size
  | addStatement _ _ _ | removeLastBlock _ => .done
  | removeLastStatement parent => .removed (t.lastChild? parent)

/-- What an edit makes of the children of its block. -/
def change (t : BlockTree) : Edit → List Child → List Child
  | addBlock _ _, children => children ++ [.block t.size]
  | addStatement parent text role, children =>
      children ++ [.statement { text, owner := parent, role }]
  | removeLastBlock _, children | removeLastStatement _, children => children.dropLast

/-- What an edit adds to the row of blocks. -/
def extend : Edit → BlockTree → BlockTree
  | addBlock _ kind, t => ⟨t.blocks.push { kind }⟩
  | _, t => t

/-- The number of blocks that an edit makes. -/
def growth : Edit → Nat
  | addBlock _ _ => 1
  | _ => 0

end Edit

namespace BlockTree

/-- The tree an edit makes, if the tree has its block: the children of that block are
changed, and a block is made if the edit is to make one. -/
def edit (t : BlockTree) (e : Edit) : Option BlockTree :=
  (t.updateChildren e.target (e.change t)).map e.extend

/-- The tree that an edit leaves, whether it failed or not. -/
def after (t : BlockTree) (e : Edit) : BlockTree := (e.perform.on t).2

/-- The tree that a sequence of edits leaves. -/
def afterAll (t : BlockTree) (edits : List Edit) : BlockTree := edits.foldl after t

end BlockTree

/-- An edit does to a tree what `BlockTree.edit` says, and nothing at all where that has no
answer. -/
theorem Edit.perform_on (e : Edit) (t : BlockTree) :
    e.perform.on t = match t.edit e with
      | some made => (some (e.reply t), made)
      | none => (none, t) := by
  -- Every program looks its handle up first, and from there on cannot stop.
  cases e with
  | addBlock parent kind =>
      have edit : t.edit (addBlock parent kind) = (t.updateChildren parent
          (· ++ [.block t.size])).map (addBlock parent kind).extend := rfl
      rw [edit, perform, Mutation.addBlock, bind_assoc, Mutation.on_bind, Mutation.on_get]
      simp only [bind_assoc, Mutation.on_onChildren_bind]
      cases t.updateChildren parent (· ++ [.block t.size]) with
      | some changed => rfl
      | none => rfl
  | addStatement parent text role =>
      have edit : t.edit (addStatement parent text role) = (t.updateChildren parent
          (· ++ [.statement { text, owner := parent, role }])).map id := rfl
      rw [edit, perform, Mutation.addStatement, Mutation.on_onChildren_bind]
      cases t.updateChildren parent (· ++ [.statement { text, owner := parent, role }]) with
      | some changed => rfl
      | none => rfl
  | removeLastBlock parent =>
      have edit : t.edit (removeLastBlock parent) =
          (t.updateChildren parent List.dropLast).map id := rfl
      rw [edit, perform, Mutation.removeLastBlock, Mutation.removeLastStatement, bind_assoc,
        bind_assoc, Mutation.on_bind, Mutation.on_get]
      simp only [bind_assoc, Mutation.on_onChildren_bind]
      cases t.updateChildren parent List.dropLast with
      | some changed => rfl
      | none => rfl
  | removeLastStatement parent =>
      have edit : t.edit (removeLastStatement parent) =
          (t.updateChildren parent List.dropLast).map id := rfl
      rw [edit, perform, Mutation.removeLastStatement, bind_assoc, Mutation.on_bind,
        Mutation.on_get]
      simp only [bind_assoc, Mutation.on_onChildren_bind]
      cases t.updateChildren parent List.dropLast with
      | some changed => rfl
      | none => rfl

/-! ## What edits do to children -/

namespace BlockTree

/-- The children of a handle; a foreign handle has none. -/
def children (t : BlockTree) (id : Nat) : List Child :=
  match t.get? id with
  | some b => b.children
  | none => []

/-- The handles of a tree are the numbers below its size. -/
theorem get?_eq_none_iff {t : BlockTree} {id : Nat} : t.get? id = none ↔ t.size ≤ id :=
  Array.getElem?_eq_none_iff

theorem exists_get? {t : BlockTree} {id : Nat} (known : id < t.size) : ∃ b, t.get? id = some b :=
  ⟨_, Array.getElem?_eq_getElem known⟩

theorem lt_size_of_get? {t : BlockTree} {id : Nat} {b : Block} (h : t.get? id = some b) :
    id < t.size :=
  (Array.getElem?_eq_some_iff.mp h).1

theorem children_of_get? {t : BlockTree} {id : Nat} {b : Block} (h : t.get? id = some b) :
    t.children id = b.children := by
  rw [children, h]

/-- Only a foreign handle has no children to change. -/
theorem updateChildren_eq_none_iff {t : BlockTree} {id : Nat} {f : List Child → List Child} :
    t.updateChildren id f = none ↔ ¬ id < t.size := by
  unfold updateChildren
  split <;> simp_all

/-- The block itself keeps its kind, and every other block is what it was. -/
theorem get?_updateChildren {t changed : BlockTree} {id : Nat} {f : List Child → List Child}
    (h : t.updateChildren id f = some changed) (other : Nat) :
    changed.get? other = (t.get? other).map fun b =>
      if other = id then { b with children := f b.children } else b := by
  unfold updateChildren at h
  split at h
  · cases h
    unfold get?
    rw [Array.getElem?_modify]
    by_cases same : other = id
    · simp only [if_pos same, if_pos same.symm]
    · simp only [if_neg same, if_neg (Ne.symm same), Option.map_id']
  · cases h

/-- Only the children of the one block are changed. -/
theorem children_updateChildren {t changed : BlockTree} {id : Nat} {f : List Child → List Child}
    (h : t.updateChildren id f = some changed) (other : Nat) :
    changed.children other = if other = id then f (t.children other) else t.children other := by
  -- An update that went through was not at a foreign handle.
  have known : id < t.size := by
    refine Decidable.byContradiction fun foreign => ?_
    rw [updateChildren_eq_none_iff.mpr foreign] at h
    cases h
  unfold children
  rw [get?_updateChildren h]
  by_cases same : other = id
  · obtain ⟨b, block⟩ := exists_get? known
    rw [if_pos same, same, block]
    simp only [Option.map_some, if_pos]
  · simp only [if_neg same, Option.map_id']

/-- No block is made or taken away by that. -/
theorem size_updateChildren {t changed : BlockTree} {id : Nat} {f : List Child → List Child}
    (h : t.updateChildren id f = some changed) : changed.size = t.size := by
  unfold updateChildren at h
  split at h
  · cases h
    exact Array.size_modify
  · cases h

/-- A block that was just made lists nothing, as did its handle before. -/
theorem children_extend (e : Edit) (t : BlockTree) (id : Nat) :
    (e.extend t).children id = t.children id := by
  cases e with
  | addBlock parent kind =>
      unfold Edit.extend children get?
      rw [Array.getElem?_push]
      by_cases made : id = t.blocks.size
      · have unknown : t.blocks[id]? = none := Array.getElem?_eq_none_iff.mpr (by omega)
        rw [if_pos made, unknown]
      · rw [if_neg made]
  | addStatement parent text role => rfl
  | removeLastBlock parent => rfl
  | removeLastStatement parent => rfl

/-- An edit fails exactly on a foreign handle. -/
theorem edit_eq_none_iff {t : BlockTree} {e : Edit} : t.edit e = none ↔ ¬ e.target < t.size := by
  rw [edit, Option.map_eq_none_iff, updateChildren_eq_none_iff]

/-- An edit changes the children of its block, and of no other. -/
theorem children_edit {t made : BlockTree} {e : Edit} (h : t.edit e = some made) (id : Nat) :
    made.children id = if id = e.target then e.change t (t.children id) else t.children id := by
  rw [edit] at h
  obtain ⟨changed, update, rfl⟩ := Option.map_eq_some_iff.mp h
  rw [children_extend, children_updateChildren update]

/-- Of the blocks that were there, an edit changes only its own. -/
theorem get?_edit {t made : BlockTree} {e : Edit} (h : t.edit e = some made) {id : Nat}
    (known : id < t.size) :
    made.get? id = (t.get? id).map fun b =>
      if id = e.target then { b with children := e.change t b.children } else b := by
  rw [edit] at h
  obtain ⟨changed, update, rfl⟩ := Option.map_eq_some_iff.mp h
  rw [← get?_updateChildren update]
  cases e with
  | addBlock parent kind =>
      have old : id < changed.blocks.size := by rwa [← size_updateChildren update] at known
      unfold Edit.extend get?
      rw [Array.getElem?_push_lt old, Array.getElem?_eq_getElem old]
  | addStatement parent text role => rfl
  | removeLastBlock parent => rfl
  | removeLastStatement parent => rfl

/-- No edit forgets a block, and a new block gets the next handle. -/
theorem size_edit {t made : BlockTree} {e : Edit} (h : t.edit e = some made) :
    made.size = t.size + e.growth := by
  rw [edit] at h
  obtain ⟨changed, update, rfl⟩ := Option.map_eq_some_iff.mp h
  rw [← size_updateChildren update]
  cases e with
  | addBlock parent kind => exact Array.size_push _
  | addStatement parent text role => rfl
  | removeLastBlock parent => rfl
  | removeLastStatement parent => rfl

/-- An edit of a block that is there does not fail. -/
theorem edit_after {t : BlockTree} {e : Edit} (known : e.target < t.size) :
    t.edit e = some (t.after e) := by
  cases made : t.edit e with
  | none => exact absurd known (edit_eq_none_iff.mp made)
  | some changed => rw [after, e.perform_on, made]

/-- An edit of a block that is there gives its answer. -/
theorem perform_on_known {t : BlockTree} {e : Edit} (known : e.target < t.size) :
    e.perform.on t = (some (e.reply t), t.after e) := by
  rw [e.perform_on, edit_after known]

/-- An edit with a foreign handle leaves the tree alone. -/
theorem after_foreign {t : BlockTree} {e : Edit} (foreign : ¬ e.target < t.size) :
    t.after e = t := by
  rw [after, e.perform_on, edit_eq_none_iff.mpr foreign]

/-- A tree grows by the blocks that an edit makes. -/
theorem size_after {t : BlockTree} {e : Edit} (known : e.target < t.size) :
    (t.after e).size = t.size + e.growth :=
  size_edit (edit_after known)

/-- An edit changes the children of its block, and no other old block. -/
theorem get?_after {t : BlockTree} {e : Edit} (known : e.target < t.size) {id : Nat}
    (old : id < t.size) :
    (t.after e).get? id = (t.get? id).map fun b =>
      if id = e.target then { b with children := e.change t b.children } else b :=
  get?_edit (edit_after known) old

/-! ## Runs of edits -/

/-- A tree that can be made, starting from a single block, by edits with any handles. -/
def Reachable (t : BlockTree) : Prop :=
  ∃ (kind : BlockKind) (edits : List Edit), (ofRoot kind).afterAll edits = t

/-- What a single block has and every edit keeps, every reachable tree has. -/
theorem Reachable.induction {P : BlockTree → Prop} (start : ∀ kind, P (ofRoot kind))
    (step : ∀ t made e, t.edit e = some made → P t → P made) {t : BlockTree}
    (reachable : t.Reachable) : P t := by
  obtain ⟨kind, edits, rfl⟩ := reachable
  -- Along the run, for any tree to start from; an edit with a foreign handle changes nothing.
  have run : ∀ t : BlockTree, P t → P (t.afterAll edits) := by
    induction edits with
    | nil =>
        intro t kept
        exact kept
    | cons e edits ih =>
        intro t kept
        apply ih
        rw [after, e.perform_on]
        cases made : t.edit e with
        | some changed => exact step t changed e made kept
        | none => exact kept
  exact run _ (start kind)

end BlockTree

end ClassOutline
