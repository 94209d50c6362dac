import ClassOutline.Pool.Lookup

/-!
How a constant pool grows.

A constant takes its own slots (`Constant.slots`), and pushing it puts exactly these
at the end (`slots_push`). So a pool is known by the constants pushed so far: reading
the full slots off gives them back in order (`constants_pushAll`). In particular
different constants make different pools.

Growing never touches what is there. If `q` extends `p` then every index below the
size of `p` holds the same in both (`Extends.get?_eq`), and a constant is found under
the index that it was given, as long as that index was not cut to sixteen bits.
-/

set_option autoImplicit false

namespace ClassOutline

/-- The slots that a constant takes. -/
def Constant.slots (k : Constant) : List (Option Constant) :=
  some k :: List.replicate (k.width - 1) none

namespace Pool

/-- Add constants at the end, one after the other. -/
def pushAll (p : Pool) (ks : List Constant) : Pool := ks.foldl (fun p k => (p.push k).2) p

/-- The pool of the given constants. -/
def ofConstants (ks : List Constant) : Pool := empty.pushAll ks

/-- The constants of a pool, without the empty slots. -/
def constants (p : Pool) : List Constant := p.slots.toList.filterMap id

@[simp] theorem pushAll_nil (p : Pool) : p.pushAll [] = p := rfl

@[simp] theorem pushAll_cons (p : Pool) (k : Constant) (ks : List Constant) :
    p.pushAll (k :: ks) = (p.push k).2.pushAll ks := rfl

/-! ## Slots and constants -/

/-- A push puts the slots of the constant behind the others. -/
theorem slots_push (p : Pool) (k : Constant) :
    (p.push k).2.slots.toList = p.slots.toList ++ k.slots := by
  unfold push Constant.slots
  dsimp only
  split
  next wide => simp [wide]
  next narrow =>
    -- Any constant that takes not two slots takes one.
    have one : k.width = 1 := by
      cases k <;> simp_all [Constant.width]
    simp [one]

theorem size_eq_length (p : Pool) : p.size = p.slots.toList.length := by
  simp [size]

/-- Of these slots only the first is full. -/
theorem constants_push (p : Pool) (k : Constant) :
    (p.push k).2.constants = p.constants ++ [k] := by
  rw [constants, slots_push, List.filterMap_append, constants]
  simp [Constant.slots]

/-- So a pool is known by what was pushed. -/
theorem constants_pushAll (p : Pool) (ks : List Constant) :
    (p.pushAll ks).constants = p.constants ++ ks := by
  induction ks generalizing p with
  | nil => simp
  | cons k ks ih => rw [pushAll_cons, ih, constants_push, List.append_assoc, List.singleton_append]

theorem constants_ofConstants (ks : List Constant) : (ofConstants ks).constants = ks :=
  constants_pushAll empty ks

/-- Different constants make different pools. -/
theorem pushAll_inj {p : Pool} {ks ls : List Constant} (h : p.pushAll ks = p.pushAll ls) :
    ks = ls := by
  have h' : p.constants ++ ks = p.constants ++ ls := by
    rw [← constants_pushAll, ← constants_pushAll, h]
  exact List.append_cancel_left h'

theorem mem_constants {p : Pool} {k : Constant} : k ∈ p.constants ↔ some k ∈ p.slots := by
  rw [constants, List.mem_filterMap, ← Array.mem_toList_iff]
  simp

/-- The slots of a pool hold what was pushed, and nothing else. -/
theorem mem_slots_ofConstants {ks : List Constant} {k : Constant} :
    some k ∈ (ofConstants ks).slots ↔ k ∈ ks := by
  rw [← mem_constants, constants_ofConstants]

/-- Every constant takes a slot at least. -/
theorem length_le_size_pushAll (p : Pool) (ks : List Constant) :
    p.size + ks.length ≤ (p.pushAll ks).size := by
  induction ks generalizing p with
  | nil => exact Nat.le_refl _
  | cons k ks ih =>
      have grown := size_push p k
      have wide := k.width_pos
      have rest := ih (p.push k).2
      rw [pushAll_cons, List.length_cons]
      omega

/-! ## Extension -/

/-- `q` has the slots of `p` and may have more behind them. -/
def Extends (q p : Pool) : Prop := p.slots.toList <+: q.slots.toList

theorem Extends.refl (p : Pool) : Extends p p := List.prefix_rfl

theorem Extends.trans {p q r : Pool} (hr : Extends r q) (hq : Extends q p) : Extends r p :=
  List.IsPrefix.trans hq hr

theorem extends_push (p : Pool) (k : Constant) : Extends (p.push k).2 p := by
  rw [Extends, slots_push]
  exact List.prefix_append _ _

theorem Extends.size_le {p q : Pool} (h : Extends q p) : p.size ≤ q.size := by
  rw [size_eq_length, size_eq_length]
  exact h.length_le

/-- What is in a pool stays where it is. -/
theorem Extends.get?_eq {p q : Pool} (h : Extends q p) {index : UInt16}
    (inside : index.toNat < p.size) : q.get? index = p.get? index := by
  obtain ⟨more, grown⟩ := h
  have slot : q.slots[index.toNat]? = p.slots[index.toNat]? := by
    -- An index of the old pool is in front of the slots that were added.
    rw [← Array.getElem?_toList, ← Array.getElem?_toList, ← grown]
    rw [size_eq_length] at inside
    exact List.getElem?_append_left inside
  rw [get?, get?, slot]

/-- The next index, as long as it fits sixteen bits, is the number of slots. -/
theorem toNat_nextIndex {p : Pool} (room : p.size < 65536) : p.nextIndex.toNat = p.size := by
  rw [nextIndex, UInt16.toNat_ofNat']
  omega

/-- A constant is found under the index it was given. -/
theorem get?_push {p : Pool} (room : p.size < 65536) (k : Constant) :
    (p.push k).2.get? (p.push k).1 = some k := by
  have given : (p.push k).1.toNat = p.size := toNat_nextIndex room
  rw [get?, given, ← Array.getElem?_toList, slots_push, size_eq_length]
  rw [List.getElem?_append_right (Nat.le_refl _), Nat.sub_self]
  rfl

/-- So is a text, in the pool with the text and in every later one. -/
theorem utf8_pushUtf8 {p q : Pool} {text : String} (room : p.size < 65536)
    (later : Extends q (p.pushUtf8 text).2) : q.utf8 (p.pushUtf8 text).1 = .ok text := by
  have inside : (p.pushUtf8 text).1.toNat < (p.pushUtf8 text).2.size := by
    have given : (p.pushUtf8 text).1.toNat = p.size := toNat_nextIndex room
    rw [given, pushUtf8, size_push]
    exact Nat.lt_add_of_pos_right (Constant.utf8 text).width_pos
  rw [utf8, later.get?_eq inside, pushUtf8, get?_push room]

end Pool

end ClassOutline
