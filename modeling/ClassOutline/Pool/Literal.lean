import ClassOutline.Decimal.Shortest
import ClassOutline.Text.Basic

/-!
Java literals of texts and numbers.

A string literal is the text between two quotes, with a quote or a backslash behind a
backslash and no control character left as it is: those with a short escape take
it, and the others are written as `\u` and four hexadecimal digits.

Whole numbers are written in decimal, a `long` with `L` behind it. A floating
point number is written with the fewest digits that read back, positionally from
0.0001 up to below 10^16, with `F` or `D` behind it; what has no literal is spelled
as a constant of the boxed class.
-/

set_option autoImplicit false

namespace ClassOutline

/-! ## Texts -/

namespace Quoted

/-- The control characters, Unicode category Cc. -/
def isControl (c : Char) : Bool :=
  c.toNat < 0x20 || (0x7F ≤ c.toNat && c.toNat < 0xA0)

/-- The letter that stands for a character behind a backslash, if it has one. -/
def shortEscape? (c : Char) : Option Char :=
  if c = '"' then some '"'
  else if c = '\\' then some '\\'
  else if c = '\n' then some 'n'
  else if c = '\r' then some 'r'
  else if c = '\t' then some 't'
  else if c = '\x08' then some 'b'
  else if c = '\x0c' then some 'f'
  else none

/-- A character inside a literal. -/
def escape (c : Char) : List Char :=
  match shortEscape? c with
  | some letter => ['\\', letter]
  | none => if isControl c then '\\' :: 'u' :: hexDigits 4 c.toNat else [c]

/-- The literal of a text. -/
def literal (s : String) : String :=
  String.ofList ('"' :: (s.toList.flatMap escape ++ ['"']))

end Quoted

/-! ## Numbers -/

namespace Literal

def int (value : Int32) : String :=
  toString value.toInt

def long (value : Int64) : String :=
  toString value.toInt ++ "L"

/-- Where positional text ends. -/
def layout : Layout := { least := -4, greatest := 15 }

/-- The literal of a number of a format with its boxed class and its suffix. -/
def floating (format : BinaryFormat) (boxed suffix : String) (bits : Nat) : String :=
  match format.read bits with
  | .nan => boxed ++ ".NaN"
  | .infinite true => boxed ++ ".NEGATIVE_INFINITY"
  | .infinite false => boxed ++ ".POSITIVE_INFINITY"
  | .finite negative units gap narrow =>
      let magnitude :=
        if units = 0 then "0.0"
        else String.ofList (layout.text (format.shortest units gap narrow))
      (if negative then "-" else "") ++ magnitude ++ suffix

def float (bits : UInt32) : String :=
  floating .single "Float" "F" bits.toNat

def double (bits : UInt64) : String :=
  floating .double "Double" "D" bits.toNat

end Literal

end ClassOutline
