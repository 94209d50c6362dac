/-!
Small operations on text: hexadecimal digits of a fixed width, blank rims, and
cutting at a mark.

A number is written with exactly the asked number of digits
(`hexDigits_length`), so the text gives it modulo the matching power of sixteen.
Blank is what has the Unicode property White_Space.
-/

set_option autoImplicit false

namespace ClassOutline

/-! ## Hexadecimal digits -/

/-- The lower case hexadecimal digit of a number below sixteen. -/
def hexDigit (n : Nat) : Char :=
  if n < 10 then Char.ofNat (48 + n) else Char.ofNat (87 + n)

/-- The last `width` hexadecimal digits of `n`, most significant first. -/
def hexDigits : Nat → Nat → List Char
  | 0, _ => []
  | width + 1, n => hexDigits width (n / 16) ++ [hexDigit (n % 16)]

@[simp] theorem hexDigits_zero (n : Nat) : hexDigits 0 n = [] := rfl

theorem hexDigits_length (width n : Nat) : (hexDigits width n).length = width := by
  induction width generalizing n with
  | zero => rfl
  | succ width ih => simp [hexDigits, ih]

/-- The last `width` hexadecimal digits of `n` as text. -/
def hexText (width n : Nat) : String :=
  String.ofList (hexDigits width n)

/-! ## Blanks and marks -/

/-- The Unicode property White_Space. -/
def isBlank (c : Char) : Bool :=
  let n := c.toNat
  (0x09 ≤ n && n ≤ 0x0D) || n == 0x20 || n == 0x85 || n == 0xA0 || n == 0x1680
    || (0x2000 ≤ n && n ≤ 0x200A) || n == 0x2028 || n == 0x2029 || n == 0x202F
    || n == 0x205F || n == 0x3000

/-- Drop the blanks at both ends. -/
def trimBlanks (cs : List Char) : List Char :=
  ((cs.dropWhile isBlank).reverse.dropWhile isBlank).reverse

/-- Cut a text at every `mark`; there is one more part than there are marks. -/
def cutAt (mark : Char) (cs : List Char) : List (List Char) :=
  cs.foldr (fun c parts =>
    if c = mark then [] :: parts
    else match parts with
      | [] => [[c]]
      | part :: parts => (c :: part) :: parts) [[]]

end ClassOutline
