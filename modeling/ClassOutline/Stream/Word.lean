/-!
Big-endian words and counted lists, on the writing side.

`bigEndian width n` is the last `width` bytes of `n`, most significant first.
It is total in `n`: a number too large for its field is written modulo the
field's range, which is what every length in the format relies on. `ofBigEndian`
reads the bytes back, so the two invert each other up to that range
(`ofBigEndian_bigEndian`).
-/

set_option autoImplicit false

namespace ClassOutline

/-- The last `width` bytes of `n`, most significant first. -/
def bigEndian : Nat → Nat → List UInt8
  | 0, _ => []
  | width + 1, n => bigEndian width (n / 256) ++ [UInt8.ofNat n]

/-- The number whose bytes, most significant first, are the given ones. -/
def ofBigEndian (bytes : List UInt8) : Nat :=
  bytes.foldl (fun n b => n * 256 + b.toNat) 0

@[simp] theorem bigEndian_zero (n : Nat) : bigEndian 0 n = [] := rfl

@[simp] theorem bigEndian_length (width n : Nat) : (bigEndian width n).length = width := by
  induction width generalizing n with
  | zero => rfl
  | succ width ih => simp [bigEndian, ih]

@[simp] theorem ofBigEndian_nil : ofBigEndian [] = 0 := rfl

theorem ofBigEndian_append (bytes : List UInt8) (b : UInt8) :
    ofBigEndian (bytes ++ [b]) = ofBigEndian bytes * 256 + b.toNat := by
  simp [ofBigEndian]

/-- Reading back what was written gives the number modulo the field's range. -/
theorem ofBigEndian_bigEndian (width n : Nat) :
    ofBigEndian (bigEndian width n) = n % Nat.pow 256 width := by
  induction width generalizing n with
  | zero => simp [Nat.mod_one]
  | succ width ih =>
      have byte : (UInt8.ofNat n).toNat = n % 256 := rfl
      have range : Nat.pow 256 (width + 1) = 256 * Nat.pow 256 width := Nat.mul_comm _ _
      rw [bigEndian, ofBigEndian_append, ih, byte, range, Nat.mod_mul]
      omega

/-! ## Words of the format -/

def bytes8 (w : UInt8) : List UInt8 := [w]

def bytes16 (w : UInt16) : List UInt8 := bigEndian 2 w.toNat

def bytes32 (w : UInt32) : List UInt8 := bigEndian 4 w.toNat

def bytes64 (w : UInt64) : List UInt8 := bigEndian 8 w.toNat

/-- A list in the format: its length in two bytes, then its elements. -/
def countedBytes {α : Type} (encode : α → List UInt8) (items : List α) : List UInt8 :=
  bigEndian 2 items.length ++ items.flatMap encode

/-! ## Bounded output -/

/-- A stream to write to: what it holds, and how many bytes it can hold at most
(`none` if there is no limit). -/
structure Sink where
  capacity : Option Nat
  written : List UInt8

namespace Sink

/-- Append bytes; `none` if they do not fit. -/
def write (sink : Sink) (bytes : List UInt8) : Option Sink :=
  let written := sink.written ++ bytes
  match sink.capacity with
  | none => some { sink with written }
  | some limit => if written.length ≤ limit then some { sink with written } else none

end Sink

end ClassOutline
