/-!
UTF-16: characters as one or two sixteen-bit units, and back.

Every character has a spelling (`Utf16.units`). Not every sequence of units
spells characters: a surrogate that is not half of a pair stands for nothing, and
`Utf16.chars` puts the replacement character U+FFFD in its place.
-/

set_option autoImplicit false

namespace ClassOutline.Utf16

/-- The replacement character. -/
def replacement : Char := Char.ofNat 0xFFFD

/-! ## From characters to units -/

/-- The units of a character: one below U+10000, otherwise a surrogate pair. -/
def units (c : Char) : List UInt16 :=
  let n := c.toNat
  if n < 0x10000 then [UInt16.ofNat n]
  else [UInt16.ofNat (0xD800 + (n - 0x10000) / 0x400),
        UInt16.ofNat (0xDC00 + (n - 0x10000) % 0x400)]

/-! ## From units to characters -/

/-- The first half of a pair. -/
def isHigh (u : UInt16) : Bool := 0xD800 ≤ u.toNat && u.toNat < 0xDC00

/-- The second half of a pair. -/
def isLow (u : UInt16) : Bool := 0xDC00 ≤ u.toNat && u.toNat < 0xE000

/-- The character of a unit that is not half of a pair. -/
def single (u : UInt16) : Char :=
  if isHigh u || isLow u then replacement else Char.ofNat u.toNat

/-- The character of a surrogate pair. -/
def pair (high low : UInt16) : Char :=
  Char.ofNat (0x10000 + (high.toNat - 0xD800) * 0x400 + (low.toNat - 0xDC00))

/-- The characters of a sequence of units, behind the reversed list `before`. -/
def charsOnto : List UInt16 → List Char → List Char
  | [], before => before.reverse
  | [u], before => (single u :: before).reverse
  | u :: v :: rest, before =>
      if isHigh u && isLow v then charsOnto rest (pair u v :: before)
      else charsOnto (v :: rest) (single u :: before)

/-- The characters of a sequence of units; an unpaired surrogate becomes the
replacement character. -/
def chars (us : List UInt16) : List Char := charsOnto us []

theorem charsOnto_eq : ∀ (us : List UInt16) (before : List Char),
    charsOnto us before = before.reverse ++ chars us
  | [], before => by simp [charsOnto, chars]
  | [u], before => by simp [charsOnto, chars]
  | u :: v :: rest, before => by
      rw [chars, charsOnto, charsOnto]
      split
      · rw [charsOnto_eq rest, charsOnto_eq rest [pair u v]]
        simp
      · rw [charsOnto_eq (v :: rest), charsOnto_eq (v :: rest) [single u]]
        simp

@[simp] theorem chars_nil : chars [] = [] := rfl

@[simp] theorem chars_singleton (u : UInt16) : chars [u] = [single u] := rfl

/-- A pair stands for one character, and any other unit for one on its own. -/
theorem chars_cons_cons (u v : UInt16) (rest : List UInt16) :
    chars (u :: v :: rest) =
      if isHigh u && isLow v then pair u v :: chars rest
      else single u :: chars (v :: rest) := by
  rw [chars, charsOnto]
  split <;> simp [charsOnto_eq]

end ClassOutline.Utf16
