import ClassOutline.Attribute.Record
import ClassOutline.Proofs.PoolAnswers
import ClassOutline.Proofs.PoolRoundTrip
import Mathlib.Algebra.Ring.Nat

/-!
What holds of every constant pool, and what stays as it is when one grows.

A pool comes from nothing or from a stream, and after that it only grows: by a constant,
by a text, by a class behind its name, by the name of an attribute. All of these are
pushes (`add_eq_push`), and so is every round of reading a pool (`fill_induction`). So one
step lemma is enough for the pattern of empty slots (`WellFormed.push`): the slot behind a
pushed constant is the only one that a push can leave empty, and the last slot of the old
pool, which is not wide, is the only old one that gets a new neighbour.

Indices are stable for a simpler reason. A pushed constant goes behind all slots that are
there, so a pool extends every earlier one (`extends_addAll`), and whatever was found at an
index is found there later. An answer of the pool is made of one or two such findings.
-/

set_option autoImplicit false

namespace ClassOutline

/-! ## Width -/

/-- A constant of type `long` or `double`. -/
def Constant.IsWide (k : Constant) : Prop :=
  (∃ value, k = .long value) ∨ ∃ bits, k = .double bits

theorem Constant.isWide_iff (k : Constant) : k.IsWide ↔ k.width = 2 := by
  cases k <;> simp [IsWide, width]

theorem Constant.width_cases (k : Constant) : k.width = 1 ∨ k.width = 2 := by
  cases k <;> simp [width]

/-- Behind a constant there is one empty slot if it is wide, and none otherwise. -/
theorem Constant.getElem?_slots_succ (k : Constant) (i : Nat) :
    k.slots[i + 1]? = if i + 1 < k.width then some none else none := by
  rw [slots, List.getElem?_cons_succ, List.getElem?_replicate]
  have shift : i < k.width - 1 ↔ i + 1 < k.width := by omega
  simp only [shift]

namespace Pool

/-! ## The pattern of slots -/

/-- The slots of a pool are where the format wants them. -/
structure WellFormed (p : Pool) : Prop where
  /-- slot 0 is empty -/
  first : p.slots[0]? = some none
  /-- behind it, a slot is empty exactly if a wide constant is in front of it -/
  gap_iff : ∀ i, i + 1 < p.size →
    (p.slots[i + 1]? = some none ↔ ∃ k, p.slots[i]? = some (some k) ∧ k.IsWide)
  /-- no wide constant is in the last slot -/
  last : ∀ k, p.slots[p.size - 1]? = some (some k) → ¬ k.IsWide
  /-- the slots are slot 0 and those that the constants take -/
  size_eq : p.size = 1 + (p.constants.map Constant.width).sum

/-- After a push the old slots are as before, and those of the constant follow. -/
theorem getElem?_slots_push (p : Pool) (k : Constant) (i : Nat) :
    (p.push k).2.slots[i]? = if i < p.size then p.slots[i]? else k.slots[i - p.size]? := by
  rw [← Array.getElem?_toList, slots_push, List.getElem?_append, Array.getElem?_toList,
    size_eq_length]

theorem wellFormed_empty : WellFormed empty where
  first := rfl
  gap_iff := by
    intro i inside
    have one : empty.size = 1 := rfl
    omega
  last := by
    intro k found
    cases found
  size_eq := rfl

theorem getElem?_slots_push_of_lt {p : Pool} (k : Constant) {i : Nat} (inside : i < p.size) :
    (p.push k).2.slots[i]? = p.slots[i]? := by
  rw [getElem?_slots_push, if_pos inside]

theorem getElem?_slots_push_size (p : Pool) (k : Constant) :
    (p.push k).2.slots[p.size]? = some (some k) := by
  rw [getElem?_slots_push, if_neg (Nat.lt_irrefl _), Nat.sub_self]
  rfl

/-- Behind a wide constant that is pushed the slot is empty. -/
theorem getElem?_slots_push_succ (p : Pool) {k : Constant} (wide : k.width = 2) :
    (p.push k).2.slots[p.size + 1]? = some none := by
  rw [getElem?_slots_push, if_neg (by omega), Nat.add_sub_cancel_left,
    Constant.getElem?_slots_succ, if_pos (by omega)]

/-- A push leaves a slot empty only behind a wide constant. -/
theorem WellFormed.gap_push_iff {p : Pool} (h : p.WellFormed) (k : Constant) {i : Nat}
    (inside : i + 1 < (p.push k).2.size) : (p.push k).2.slots[i + 1]? = some none ↔
      ∃ l, (p.push k).2.slots[i]? = some (some l) ∧ l.IsWide := by
  have width := k.width_cases
  rw [size_push] at inside
  -- The slot asked for is an old one, the one of `k`, or the one behind `k`.
  rcases Nat.lt_trichotomy (i + 1) p.size with before | next | behind
  · rw [getElem?_slots_push_of_lt k before, getElem?_slots_push_of_lt k (by omega)]
    exact h.gap_iff i before
  · rw [next, getElem?_slots_push_size, getElem?_slots_push_of_lt k (by omega)]
    constructor
    · intro gap
      cases gap
    · rintro ⟨l, found, wide⟩
      obtain rfl : i = p.size - 1 := by omega
      exact absurd wide (h.last l found)
  · obtain rfl : i = p.size := by omega
    have wide : k.width = 2 := by omega
    rw [getElem?_slots_push_size, getElem?_slots_push_succ p wide]
    exact ⟨fun _ => ⟨k, rfl, k.isWide_iff.mpr wide⟩, fun _ => rfl⟩

/-- A push keeps the pattern. -/
theorem WellFormed.push {p : Pool} (h : p.WellFormed) (k : Constant) :
    (p.push k).2.WellFormed where
  first := by
    have positive : 0 < p.size := by
      have size := h.size_eq
      omega
    rw [getElem?_slots_push_of_lt k positive]
    exact h.first
  gap_iff := fun _ inside => h.gap_push_iff k inside
  last := by
    -- The last slot is that of `k`, unless `k` is wide: then it is the empty one behind.
    intro l found
    rcases k.width_cases with narrow | wide
    · rw [size_push, narrow, Nat.add_sub_cancel, getElem?_slots_push_size] at found
      cases found
      rw [k.isWide_iff]
      omega
    · have index : p.size + 2 - 1 = p.size + 1 := rfl
      rw [size_push, wide, index, getElem?_slots_push_succ p wide] at found
      cases found
  size_eq := by
    have size := h.size_eq
    rw [size_push, constants_push, List.map_append, List.sum_append]
    simp only [List.map_cons, List.map_nil, List.sum_cons, List.sum_nil]
    omega

/-- A pool that was read has the pattern. -/
theorem wellFormed_of_decode {e : Ending} {c next : Cursor} {p : Pool}
    (run : decode e c = .done p next) : p.WellFormed := by
  obtain ⟨count, mid, _, run⟩ := Decoder.bind_eq_done run
  obtain ⟨q, stop, filled, run⟩ := Decoder.bind_eq_done run
  cases run
  exact fill_induction (fun _ k _ h => h.push k) wellFormed_empty filled

/-! ## Additions -/

/-- What can be added to a pool. -/
inductive Addition where
  | constant (k : Constant)
  | utf8 (text : String)
  | classRef (name : String)
  /-- the name of an attribute with this payload -/
  | attribute (kind : AttributeKind) (info : List UInt8)

/-- Add something: the index that comes back, and the pool with the addition. -/
def add (p : Pool) : Addition → UInt16 × Pool
  | .constant k => p.push k
  | .utf8 text => p.pushUtf8 text
  | .classRef name => p.pushClass name
  | .attribute kind info => ((p.named kind info).1.name, (p.named kind info).2)

/-- The pool in front of the constant that is added: a class stands behind its name. -/
def Addition.front (p : Pool) : Addition → Pool
  | .classRef name => (p.pushUtf8 name).2
  | _ => p

/-- The constant that is added. -/
def Addition.added (p : Pool) : Addition → Constant
  | .constant k => k
  | .utf8 text => .utf8 text
  | .classRef _ => .classRef p.nextIndex
  | .attribute kind _ => .utf8 kind.name

/-- The pool with several things added, one after the other. -/
def addAll (p : Pool) (additions : List Addition) : Pool :=
  additions.foldl (fun p a => (p.add a).2) p

/-- A pool that the library makes: empty or read from a stream, and then added to. -/
inductive Made : Pool → Prop
  | empty : Made empty
  | decoded {e : Ending} {c next : Cursor} {p : Pool} : decode e c = .done p next → Made p
  | add {p : Pool} (a : Addition) : Made p → Made (p.add a).2

/-- Every addition ends in a push. -/
theorem add_eq_push (p : Pool) (a : Addition) : p.add a = (a.front p).push (a.added p) := by
  cases a <;> rfl

theorem Addition.extends_front (p : Pool) (a : Addition) : Extends (a.front p) p := by
  cases a with
  | classRef name => exact extends_push p _
  | _ => exact .refl p

theorem Addition.wellFormed_front {p : Pool} (h : p.WellFormed) (a : Addition) :
    (a.front p).WellFormed := by
  cases a with
  | classRef name => exact h.push (.utf8 name)
  | _ => exact h

/-- However a pool was made, it has the pattern. -/
theorem Made.wellFormed {p : Pool} (made : p.Made) : p.WellFormed := by
  -- Every way to make a pool comes down to pushes.
  induction made with
  | empty => exact wellFormed_empty
  | decoded run => exact wellFormed_of_decode run
  | add a _ ih =>
      rw [add_eq_push]
      exact (a.wellFormed_front ih).push _

/-- Adding only extends. -/
theorem extends_addAll (p : Pool) (additions : List Addition) : Extends (p.addAll additions) p := by
  induction additions generalizing p with
  | nil => exact .refl p
  | cons a additions ih =>
      have one : Extends (p.add a).2 p := by
        rw [add_eq_push]
        exact (extends_push _ _).trans (a.extends_front p)
      exact (ih (p.add a).2).trans one

/-! ## Answers -/

theorem lt_size_of_get? {p : Pool} {index : UInt16} {k : Constant} (found : p.get? index = some k) :
    index.toNat < p.size := by
  by_contra outside
  have missing : p.slots[index.toNat]? = none := Array.getElem?_eq_none (Nat.le_of_not_lt outside)
  rw [get?, missing] at found
  cases found

/-- What is found in a pool is found in every later one. -/
theorem Extends.get?_eq_some {p q : Pool} (later : Extends q p) {index : UInt16} {k : Constant}
    (found : p.get? index = some k) : q.get? index = some k := by
  rw [later.get?_eq (lt_size_of_get? found)]
  exact found

theorem Extends.utf8_eq_ok {p q : Pool} (later : Extends q p) {index : UInt16} {text : String}
    (ok : p.utf8 index = .ok text) : q.utf8 index = .ok text :=
  utf8_eq_ok_iff.mpr (later.get?_eq_some (utf8_eq_ok_iff.mp ok))

/-- So is what is made of a text that is found. -/
theorem Extends.map_utf8_eq_ok {p q : Pool} (later : Extends q p) {index : UInt16}
    {make : String → String} {answer : String} (ok : (p.utf8 index).map make = .ok answer) :
    (q.utf8 index).map make = .ok answer := by
  cases found : p.utf8 index with
  | error error =>
      rw [found] at ok
      cases ok
  | ok text =>
      rw [found] at ok
      rw [later.utf8_eq_ok found]
      exact ok

/-- A pool keeps the answers that it has given. -/
theorem Extends.resolver_eq_ok {p q : Pool} (later : Extends q p) {question : Lookup}
    {index : UInt16} {answer : String} (ok : p.resolver question index = .ok answer) :
    q.resolver question index = .ok answer := by
  -- An answer is an error unless a constant was found, and then the constant decides.
  cases question with
  | utf8 => exact later.utf8_eq_ok ok
  | className =>
      simp only [resolver, className] at ok ⊢
      by_cases any : index = 0
      · rw [if_pos any] at ok ⊢
        exact ok
      · rw [if_neg any] at ok ⊢
        cases found : p.get? index with
        | none =>
            rw [found] at ok
            cases ok
        | some k =>
            rw [found] at ok
            rw [later.get?_eq_some found]
            cases k with
            | classRef name => exact later.map_utf8_eq_ok ok
            | _ => exact ok
  | literal =>
      simp only [resolver, literal] at ok ⊢
      cases found : p.get? index with
      | none =>
          rw [found] at ok
          cases ok
      | some k =>
          rw [found] at ok
          rw [later.get?_eq_some found]
          cases k with
          | stringRef text => exact later.map_utf8_eq_ok ok
          | _ => exact ok

/-! ## Every pool -/

/-- **Every pool is well formed, and what it holds stays where it is.** This is so of every
pool that comes from nothing or from a stream and is then added to. The index that an
addition comes back with leads to the constant that was added, as long as there were at
most 65535 slots in front of it; no later addition changes what is found below the present
size, nor any answer that the pool has given. -/
theorem wellFormed_and_stable {p : Pool} (made : p.Made) :
    p.WellFormed ∧
    (∀ a : Addition, (a.front p).size ≤ 65535 →
      (p.add a).2.get? (p.add a).1 = some (a.added p)) ∧
    ∀ later : List Addition,
      (∀ index : UInt16, index.toNat < p.size → (p.addAll later).get? index = p.get? index) ∧
      ∀ question index answer, p.resolver question index = .ok answer →
        (p.addAll later).resolver question index = .ok answer := by
  refine ⟨made.wellFormed, ?_, ?_⟩
  · intro a room
    -- The index is the size in 16 bits, so without room it would lead back to the front.
    rw [add_eq_push]
    exact get?_push (by omega) _
  · intro later
    have grown : Extends (p.addAll later) p := extends_addAll p later
    exact ⟨fun index inside => grown.get?_eq inside,
      fun question index answer ok => grown.resolver_eq_ok ok⟩

/-- A `long` that goes one slot beyond the count 2 it is read with, and behind it a class:
the class gets index 4 behind its name at 3, and both are still there, and answer, after a
`double` and the name of an attribute. -/
theorem overshotSample_wellFormed_and_stable :
    ∃ p next, decode .endOfFile (Cursor.start [0, 2, 5, 0, 0, 0, 0, 0, 0, 0, 7]) = .done p next ∧
      p.slots = #[none, some (.long 7), none] ∧
      p.WellFormed ∧ (p.add (.classRef "a/B")).2.WellFormed ∧
      (p.add (.classRef "a/B")).2.get? 4 = some (.classRef 3) ∧
      ((p.add (.classRef "a/B")).2.addAll [.constant (.double 0), .attribute .code []]).resolver
        .className 4 = .ok "a.B" := by
  have run : decode .endOfFile (Cursor.start [0, 2, 5, 0, 0, 0, 0, 0, 0, 0, 7])
      = .done ⟨#[none, some (.long 7), none]⟩ ⟨[], [.poolRead 3]⟩ := rfl
  have made : Made ⟨#[none, some (.long 7), none]⟩ := .decoded run
  have bigger := Made.add (.classRef "a/B") made
  refine ⟨_, _, run, rfl, (wellFormed_and_stable made).1, (wellFormed_and_stable bigger).1, ?_, ?_⟩
  · exact (wellFormed_and_stable made).2.1 (.classRef "a/B") (by decide)
  · exact ((wellFormed_and_stable bigger).2.2 _).2 .className 4 "a.B" (by decide)

end Pool

end ClassOutline
