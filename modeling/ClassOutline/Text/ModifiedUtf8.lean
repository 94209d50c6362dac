import ClassOutline.Text.Utf16

/-!
The text encoding of class files.

Text is written unit by unit in UTF-16: a unit takes one byte from U+0001 to
U+007F, two bytes up to U+07FF and for U+0000, and three bytes above. A character
beyond U+FFFF is therefore six bytes, its two surrogates one after the other, and
no text contains the byte 00.

Decoding never fails. A byte that neither is a unit nor starts one stands for
U+FFFD, and reading goes on at the next byte; a unit in more bytes than it needs is
read like any other.
-/

set_option autoImplicit false

namespace ClassOutline.ModifiedUtf8

/-! ## Writing -/

/-- The bytes of a unit. -/
def encodeUnit (u : UInt16) : List UInt8 :=
  let n := u.toNat
  if 1 ≤ n ∧ n < 0x80 then [UInt8.ofNat n]
  else if n < 0x800 then [UInt8.ofNat (0xC0 + n / 64), UInt8.ofNat (0x80 + n % 64)]
  else [UInt8.ofNat (0xE0 + n / 4096), UInt8.ofNat (0x80 + n / 64 % 64),
        UInt8.ofNat (0x80 + n % 64)]

/-- The bytes of a text. -/
def encode (s : String) : List UInt8 :=
  (s.toList.flatMap Utf16.units).flatMap encodeUnit

/-! ## Reading -/

/-- A byte that goes on a unit. -/
def isContinuation (b : UInt8) : Bool := 0x80 ≤ b.toNat && b.toNat < 0xC0

/-- A byte that starts a unit of two bytes. -/
def startsTwo (b : UInt8) : Bool := 0xC0 ≤ b.toNat && b.toNat < 0xE0

/-- A byte that starts a unit of three bytes. -/
def startsThree (b : UInt8) : Bool := 0xE0 ≤ b.toNat && b.toNat < 0xF0

/-- The unit of a byte on its own; U+FFFD if it has none. -/
def oneByte (a : UInt8) : UInt16 :=
  if a.toNat < 0x80 then UInt16.ofNat a.toNat else 0xFFFD

/-- The unit of a starting byte and a continuation. -/
def twoBytes (a b : UInt8) : UInt16 :=
  UInt16.ofNat (a.toNat % 32 * 64 + b.toNat % 64)

/-- The unit of a starting byte and two continuations. -/
def threeBytes (a b c : UInt8) : UInt16 :=
  UInt16.ofNat (a.toNat % 16 * 4096 + b.toNat % 64 * 64 + c.toNat % 64)

/-- The units of a sequence of bytes, behind the reversed list `before`. -/
def unitsOnto : List UInt8 → List UInt16 → List UInt16
  | [], before => before.reverse
  | [a], before => (oneByte a :: before).reverse
  | [a, b], before =>
      if startsTwo a && isContinuation b then (twoBytes a b :: before).reverse
      else unitsOnto [b] (oneByte a :: before)
  | a :: b :: c :: rest, before =>
      if startsThree a && isContinuation b && isContinuation c then
        unitsOnto rest (threeBytes a b c :: before)
      else if startsTwo a && isContinuation b then
        unitsOnto (c :: rest) (twoBytes a b :: before)
      else unitsOnto (b :: c :: rest) (oneByte a :: before)

/-- The units of a sequence of bytes. -/
def units (bytes : List UInt8) : List UInt16 := unitsOnto bytes []

theorem unitsOnto_eq : ∀ (bytes : List UInt8) (before : List UInt16),
    unitsOnto bytes before = before.reverse ++ units bytes
  | [], before => by simp [unitsOnto, units]
  | [a], before => by simp [unitsOnto, units]
  | [a, b], before => by
      simp only [units, unitsOnto]
      split <;> simp
  | a :: b :: c :: rest, before => by
      rw [units, unitsOnto, unitsOnto]
      split
      · rw [unitsOnto_eq rest, unitsOnto_eq rest [threeBytes a b c]]
        simp
      · split
        · rw [unitsOnto_eq (c :: rest), unitsOnto_eq (c :: rest) [twoBytes a b]]
          simp
        · rw [unitsOnto_eq (b :: c :: rest), unitsOnto_eq (b :: c :: rest) [oneByte a]]
          simp

/-- The text of a sequence of bytes. -/
def decode (bytes : List UInt8) : String :=
  String.ofList (Utf16.chars (units bytes))

end ClassOutline.ModifiedUtf8
