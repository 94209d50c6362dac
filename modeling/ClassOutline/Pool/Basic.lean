import ClassOutline.Pool.Constant

/-!
Constant pools.

A pool is a row of slots. Slot 0 is empty, and so is the slot behind a constant of
width two; all other slots hold a constant. Constants are only ever added at the
end, and the index of a constant is the number of slots in front of it, as far as
sixteen bits go.
-/

set_option autoImplicit false

namespace ClassOutline

structure Pool where
  slots : Array (Option Constant)
  deriving DecidableEq, Repr

namespace Pool

/-- The pool without constants. -/
def empty : Pool := ⟨#[none]⟩

/-- The number of slots, slot 0 included. -/
def size (p : Pool) : Nat := p.slots.size

def isEmpty (p : Pool) : Bool := p.size ≤ 1

/-- The index that the next constant gets. -/
def nextIndex (p : Pool) : UInt16 := UInt16.ofNat p.size

/-- Add a constant at the end. The result is its index, with the pool it is in. -/
def push (p : Pool) (k : Constant) : UInt16 × Pool :=
  let slots := p.slots.push (some k)
  (p.nextIndex, ⟨if k.width = 2 then slots.push none else slots⟩)

/-- Add a text. -/
def pushUtf8 (p : Pool) (text : String) : UInt16 × Pool := p.push (.utf8 text)

/-- Add a class, after the text of its name. -/
def pushClass (p : Pool) (name : String) : UInt16 × Pool :=
  let (index, p) := p.pushUtf8 name
  p.push (.classRef index)

/-- The constant at an index. -/
def get? (p : Pool) (index : UInt16) : Option Constant :=
  p.slots[index.toNat]?.join

theorem size_push (p : Pool) (k : Constant) : (p.push k).2.size = p.size + k.width := by
  unfold push size
  cases k <;> simp [Constant.width]

/-! ## Writing and reading -/

/-- A pool in the format: the number of its slots, then its constants. -/
def encode (p : Pool) : List UInt8 :=
  bigEndian 2 p.size ++ (p.slots.toList.filterMap id).flatMap Constant.encode

/-- Read constants until the pool has `count` slots. Every constant fills at least
one, so `count` steps are enough. -/
def fill (count : Nat) : Nat → Pool → Ending → Cursor → Outcome Pool
  | 0, p, _, c => .done p c
  | steps + 1, p, e, c =>
      if p.size < count then
        match Constant.decode e c with
        | .done k c => fill count steps (p.push k).2 e c
        | .failed error c => .failed error c
      else .done p c

/-- Read a pool. A last constant of width two may go one slot beyond the count. -/
def decode : Decoder Pool := do
  let count ← Decoder.u16
  let p ← (fill count.toNat count.toNat empty : Decoder Pool)
  Decoder.note (.poolRead p.size)
  pure p

/-! ## Comparing as numbers -/

/-- Equality that takes floating point constants as numbers. -/
def same (p q : Pool) : Bool :=
  p.size == q.size && (p.slots.zip q.slots).all fun
    | (none, none) => true
    | (some a, some b) => a.same b
    | _ => false

end Pool

end ClassOutline
