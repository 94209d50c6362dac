/-!
Binary floating point numbers, read from their bits.

A format is given by the sizes of its fraction and exponent fields. Every finite
number of a format is a whole number of *units*, the least positive number of the
format, so magnitudes need no exponents here: `finite negative units gap narrow`
says how many units there are, how far away the next number above is, and whether
the next number below is only half as far, as it is at a power of two.
-/

set_option autoImplicit false

namespace ClassOutline

/-- The widths of the fields of a floating point format. -/
structure BinaryFormat where
  fractionBits : Nat
  exponentBits : Nat

/-- A number of a format, taken apart. -/
inductive Binary where
  | nan
  | infinite (negative : Bool)
  | finite (negative : Bool) (units gap : Nat) (narrow : Bool)
  deriving DecidableEq, Repr

namespace BinaryFormat

/-- Numbers of four bytes. -/
def single : BinaryFormat := ⟨23, 8⟩

/-- Numbers of eight bytes. -/
def double : BinaryFormat := ⟨52, 11⟩

/-- The unit of the format is two to the minus this. -/
def unitExponent (f : BinaryFormat) : Nat :=
  Nat.pow 2 (f.exponentBits - 1) - 2 + f.fractionBits

/-- The number that the bits stand for. -/
def read (f : BinaryFormat) (bits : Nat) : Binary :=
  let hidden := Nat.pow 2 f.fractionBits
  let range := Nat.pow 2 f.exponentBits
  let fraction := bits % hidden
  let exponent := bits / hidden % range
  let negative := bits / (hidden * range) % 2 == 1
  if exponent = range - 1 then
    if fraction = 0 then .infinite negative else .nan
  else if exponent = 0 then .finite negative fraction 1 false
  else
    let gap := Nat.pow 2 (exponent - 1)
    .finite negative ((hidden + fraction) * gap) gap
      (fraction == 0 && exponent != 1)

end BinaryFormat

/-- Equality of numbers: a NaN equals nothing, and the two zeros are equal. -/
def Binary.same : Binary → Binary → Bool
  | .infinite s, .infinite t => s == t
  | .finite s m _ _, .finite t n _ _ => m == n && (s == t || m == 0)
  | _, _ => false

end ClassOutline
