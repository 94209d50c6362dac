import ClassOutline.Decimal.Binary

/-!
The shortest decimal that reads back as a given binary number.

The reals that round to a number form an interval around it, with its ends if the
significand is even. The search goes over the grids of multiples of ten to the
`k`, from coarse to fine: the first grid with a point in the interval gives the
fewest digits, and of the number's two neighbours on that grid the nearer one is
taken, the upper one if both are equally near. Everything is done in whole numbers,
by measuring in a power of ten fine enough for the interval and its middle.
-/

set_option autoImplicit false

namespace ClassOutline

/-- The number `coefficient * 10 ^ exponent`. -/
structure Decimal where
  coefficient : Nat
  exponent : Int
  deriving DecidableEq, Repr

/-- An interval of whole numbers around a middle, with or without its ends. -/
structure Rounding where
  low : Nat
  middle : Nat
  high : Nat
  closed : Bool

namespace Rounding

def contains (r : Rounding) (n : Nat) : Bool :=
  if r.closed then r.low ≤ n && n ≤ r.high else r.low < n && n < r.high

/-- The multiple of `step` in the interval that is nearest to the middle, divided
by `step`; the upper one of two that are equally near. -/
def onGrid? (r : Rounding) (step : Nat) : Option Nat :=
  let below := r.middle / step
  let above := below + 1
  if r.contains (below * step) then
    if r.contains (above * step) && above * step - r.middle ≤ r.middle - below * step then
      some above
    else some below
  else if r.contains (above * step) then some above
  else none

/-- The point on the coarsest grid, of those of ten to the `k` or finer. -/
def coarsest (r : Rounding) : Nat → Nat × Nat
  | 0 => (r.middle, 0)
  | k + 1 =>
      match r.onGrid? (Nat.pow 10 (k + 1)) with
      | some point => (point, k + 1)
      | none => r.coarsest k

end Rounding

namespace BinaryFormat

/-- The reals that round to a number of `units` units, measured in ten to the
minus `unitExponent + 2`. -/
def rounding (f : BinaryFormat) (units gap : Nat) (narrow : Bool) : Rounding :=
  let scale := Nat.pow 5 (f.unitExponent + 2)
  { low := (4 * units - (if narrow then gap else 2 * gap)) * scale
    middle := 4 * units * scale
    high := (4 * units + 2 * gap) * scale
    closed := units / gap % 2 == 0 }

/-- The shortest decimal that reads back as the number of `units` units. No grid
coarser than the starting one has a point below `high`, as ten exceeds eight. -/
def shortest (f : BinaryFormat) (units gap : Nat) (narrow : Bool) : Decimal :=
  let r := f.rounding units gap narrow
  let (point, k) := r.coarsest (r.high.log2 / 3 + 1)
  { coefficient := point, exponent := (k : Int) - (f.unitExponent + 2 : Nat) }

end BinaryFormat

/-! ## Layout -/

/-- Numbers whose first digit counts at least ten to the `least` and at most ten to
the `greatest` are written positionally, all others with an exponent. -/
structure Layout where
  least : Int
  greatest : Int

/-- The text of a positive decimal. Positional text has a digit on either side of
the point; text with an exponent has a point only if it has several digits. -/
def Layout.text (layout : Layout) (d : Decimal) : List Char :=
  let digits := Nat.toDigits 10 d.coefficient
  let lead := d.exponent + digits.length - 1
  if layout.least ≤ lead ∧ lead ≤ layout.greatest then
    if 0 ≤ d.exponent then digits ++ List.replicate d.exponent.toNat '0' ++ ['.', '0']
    else if 0 ≤ lead then
      digits.take (lead.toNat + 1) ++ '.' :: digits.drop (lead.toNat + 1)
    else '0' :: '.' :: (List.replicate ((-lead).toNat - 1) '0' ++ digits)
  else
    let fraction := digits.drop 1
    digits.take 1 ++ (if fraction.isEmpty then [] else '.' :: fraction)
      ++ 'e' :: (toString lead).toList

end ClassOutline
