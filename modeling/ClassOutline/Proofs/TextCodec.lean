import ClassOutline.Text.ModifiedUtf8

/-!
Text survives its encoding, and a cut encoding is never the same text.

Both layers are decoded front to back, so each round trip is stated with bytes or
units behind it: the unit that was written comes off the front of the stream
(`units_encodeUnit_append`), and the character that was spelled comes off the front
of the units (`chars_units_append`). Text as a whole follows by induction.

The last sections are about what a wrong length does. Decoding gives one unit for at
most three bytes and a text has as many units as were decoded for it, so cutting five
bytes or more off an encoding leaves too few units for the text
(`decode_ne_of_cut`), however the cut falls. Whatever the bytes, reading them and writing
the text again at most triples their number (`length_encode_decode_le`).
-/

set_option autoImplicit false

namespace ClassOutline

/-! ## Characters and units -/

namespace Utf16

/-- A scalar value below U+10000 is a unit that is no surrogate. -/
theorem toNat_ofNat_unit {u : UInt16} (high : isHigh u = false) (low : isLow u = false) :
    (Char.ofNat u.toNat).toNat = u.toNat := by
  have bound : u.toNat < 65536 := UInt16.toNat_lt u
  simp only [isHigh, isLow, Bool.and_eq_false_iff, decide_eq_false_iff_not] at high low
  have valid : u.toNat.isValidChar := by
    unfold Nat.isValidChar
    omega
  rw [Char.ofNat, dif_pos valid]
  rfl

/-- A unit that starts no pair is a character by itself. -/
theorem chars_cons_of_not_high {u : UInt16} (high : isHigh u = false) (rest : List UInt16) :
    chars (u :: rest) = single u :: chars rest := by
  cases rest with
  | nil => rw [chars_singleton, chars_nil]
  | cons v rest =>
      rw [chars_cons_cons, high]
      rfl

/-- The unit of a character below U+10000 is no surrogate. -/
theorem chars_cons_unit {c : Char} (small : c.toNat < 0x10000) (rest : List UInt16) :
    chars (UInt16.ofNat c.toNat :: rest) = c :: chars rest := by
  have valid : c.toNat < 0xD800 ∨ 0xDFFF < c.toNat ∧ c.toNat < 0x110000 := c.valid
  have unit : (UInt16.ofNat c.toNat).toNat = c.toNat := by
    rw [UInt16.toNat_ofNat']
    omega
  -- A character is no surrogate, so its number is in neither range.
  have high : isHigh (UInt16.ofNat c.toNat) = false := by
    simp only [isHigh, unit, Bool.and_eq_false_iff, decide_eq_false_iff_not]
    omega
  have low : isLow (UInt16.ofNat c.toNat) = false := by
    simp only [isLow, unit, Bool.and_eq_false_iff, decide_eq_false_iff_not]
    omega
  have alone : single (UInt16.ofNat c.toNat) = c := by
    rw [single, high, low, unit]
    exact Char.ofNat_toNat c
  rw [chars_cons_of_not_high high, alone]

/-- The two halves of a number of twenty bits are a pair, and stand for that number. -/
theorem chars_cons_pair {n : Nat} (bound : n < 0x100000) (rest : List UInt16) :
    chars (UInt16.ofNat (0xD800 + n / 0x400) :: UInt16.ofNat (0xDC00 + n % 0x400) :: rest)
      = Char.ofNat (0x10000 + n) :: chars rest := by
  have first : (UInt16.ofNat (0xD800 + n / 0x400)).toNat = 0xD800 + n / 0x400 := by
    rw [UInt16.toNat_ofNat']
    omega
  have second : (UInt16.ofNat (0xDC00 + n % 0x400)).toNat = 0xDC00 + n % 0x400 := by
    rw [UInt16.toNat_ofNat']
    omega
  -- Ten bits above each mark stay within the range of that half.
  have high : isHigh (UInt16.ofNat (0xD800 + n / 0x400)) = true := by
    simp only [isHigh, first, Bool.and_eq_true, decide_eq_true_eq]
    omega
  have low : isLow (UInt16.ofNat (0xDC00 + n % 0x400)) = true := by
    simp only [isLow, second, Bool.and_eq_true, decide_eq_true_eq]
    omega
  have value : 0x10000 + (0xD800 + n / 0x400 - 0xD800) * 0x400
      + (0xDC00 + n % 0x400 - 0xDC00) = 0x10000 + n := by
    omega
  rw [chars_cons_cons, high, low, pair, first, second, value]
  rfl

/-- The units of a character come off the front as that character. -/
theorem chars_units_append (c : Char) (rest : List UInt16) :
    chars (units c ++ rest) = c :: chars rest := by
  have valid : c.toNat < 0xD800 ∨ 0xDFFF < c.toNat ∧ c.toNat < 0x110000 := c.valid
  unfold units
  dsimp only
  by_cases small : c.toNat < 0x10000
  · rw [if_pos small]
    exact chars_cons_unit small rest
  · have value : 0x10000 + (c.toNat - 0x10000) = c.toNat := by
      omega
    rw [if_neg small, List.cons_append, List.singleton_append, chars_cons_pair (by omega), value]
    exact congrArg (· :: chars rest) (Char.ofNat_toNat c)

/-- The units of a text come off the front as that text. -/
theorem chars_flatMap_units_append (text : List Char) (rest : List UInt16) :
    chars (text.flatMap units ++ rest) = text ++ chars rest := by
  induction text with
  | nil => rfl
  | cons c text ih =>
      rw [List.flatMap_cons, List.append_assoc, chars_units_append, ih, List.cons_append]

/-! A decoded character takes as many units as it was decoded from, whether they
were a pair, a unit of its own or an unpaired surrogate. -/

/-- A unit by itself is read as a character of one unit. -/
theorem length_units_single (u : UInt16) : (units (single u)).length = 1 := by
  have bound : u.toNat < 65536 := UInt16.toNat_lt u
  have small : (single u).toNat < 0x10000 := by
    -- An unpaired surrogate is replaced, and the replacement is below U+10000.
    unfold single
    split
    · decide
    · rename_i plain
      simp only [Bool.or_eq_true, not_or, Bool.not_eq_true] at plain
      rw [toNat_ofNat_unit plain.1 plain.2]
      exact bound
  rw [units, if_pos small]
  rfl

theorem toNat_pair {u v : UInt16} (high : isHigh u = true) (low : isLow v = true) :
    (pair u v).toNat = 0x10000 + (u.toNat - 0xD800) * 0x400 + (v.toNat - 0xDC00) := by
  simp only [isHigh, isLow, Bool.and_eq_true, decide_eq_true_eq] at high low
  have valid : (0x10000 + (u.toNat - 0xD800) * 0x400 + (v.toNat - 0xDC00)).isValidChar := by
    unfold Nat.isValidChar
    omega
  rw [pair, Char.ofNat, dif_pos valid]
  rfl

theorem length_units_pair {u v : UInt16} (high : isHigh u = true) (low : isLow v = true) :
    (units (pair u v)).length = 2 := by
  have value := toNat_pair high low
  rw [units, if_neg (by omega)]
  rfl

/-- A decoded text has as many units as were decoded. -/
theorem length_flatMap_units_chars : ∀ us : List UInt16,
    ((chars us).flatMap units).length = us.length
  | [] => rfl
  | [u] => by simp [length_units_single]
  | u :: v :: rest => by
      rw [chars_cons_cons]
      -- The first character is a pair or not, and is counted as what it was read from.
      split
      · rename_i both
        rw [Bool.and_eq_true] at both
        rw [List.flatMap_cons, List.length_append, length_units_pair both.1 both.2,
          length_flatMap_units_chars rest, List.length_cons, List.length_cons]
        omega
      · rw [List.flatMap_cons, List.length_append, length_units_single,
          length_flatMap_units_chars (v :: rest), List.length_cons (a := u)]
        omega

end Utf16

/-! ## Units and bytes -/

namespace ModifiedUtf8

/-- How the first unit of three bytes or more is found. -/
theorem units_cons_cons_cons (a b c : UInt8) (rest : List UInt8) :
    units (a :: b :: c :: rest) =
      if startsThree a && isContinuation b && isContinuation c then
        threeBytes a b c :: units rest
      else if startsTwo a && isContinuation b then twoBytes a b :: units (c :: rest)
      else oneByte a :: units (b :: c :: rest) := by
  rw [units, unitsOnto]
  split
  · rw [unitsOnto_eq]
    rfl
  · split
    · rw [unitsOnto_eq]
      rfl
    · rw [unitsOnto_eq]
      rfl

/-- At the end of the bytes there is no unit of three. -/
theorem units_cons_cons (a b : UInt8) :
    units [a, b] =
      if startsTwo a && isContinuation b then [twoBytes a b] else [oneByte a, oneByte b] := by
  rw [units, unitsOnto]
  split
  · rfl
  · rfl

/-- A byte that starts no longer unit is a unit by itself. -/
theorem units_cons_alone {a : UInt8} (two : startsTwo a = false) (three : startsThree a = false)
    (rest : List UInt8) : units (a :: rest) = oneByte a :: units rest := by
  match rest with
  | [] => rfl
  | [b] =>
      rw [units_cons_cons, two]
      rfl
  | b :: c :: rest =>
      rw [units_cons_cons_cons, two, three]
      rfl

/-- A byte below 80 is one of these. -/
theorem units_cons_of_lt {a : UInt8} (small : a.toNat < 0x80) (rest : List UInt8) :
    units (a :: rest) = oneByte a :: units rest := by
  have two : startsTwo a = false := by
    simp only [startsTwo, Bool.and_eq_false_iff, decide_eq_false_iff_not]
    omega
  have three : startsThree a = false := by
    simp only [startsThree, Bool.and_eq_false_iff, decide_eq_false_iff_not]
    omega
  exact units_cons_alone two three rest

/-- A lead byte of two and a continuation are a unit. -/
theorem units_cons_two {a b : UInt8} (two : startsTwo a = true) (cont : isContinuation b = true)
    (rest : List UInt8) : units (a :: b :: rest) = twoBytes a b :: units rest := by
  have three : startsThree a = false := by
    simp only [startsTwo, Bool.and_eq_true, decide_eq_true_eq] at two
    simp only [startsThree, Bool.and_eq_false_iff, decide_eq_false_iff_not]
    omega
  match rest with
  | [] =>
      rw [units_cons_cons, two, cont]
      rfl
  | c :: rest =>
      rw [units_cons_cons_cons, two, cont, three]
      rfl

theorem units_cons_three {a b c : UInt8} (three : startsThree a = true)
    (second : isContinuation b = true) (third : isContinuation c = true) (rest : List UInt8) :
    units (a :: b :: c :: rest) = threeBytes a b c :: units rest := by
  rw [units_cons_cons_cons, three, second, third]
  rfl

/-! The bytes that are written: the bits of a unit six at a time, each with a mark above
them that says which byte it is. -/

theorem toNat_continuation {n : Nat} (bits : n < 64) :
    (UInt8.ofNat (0x80 + n)).toNat = 0x80 + n := by
  rw [UInt8.toNat_ofNat']
  omega

theorem isContinuation_ofNat {n : Nat} (bits : n < 64) :
    isContinuation (UInt8.ofNat (0x80 + n)) = true := by
  simp only [isContinuation, toNat_continuation bits, Bool.and_eq_true, decide_eq_true_eq]
  omega

/-- A number of eleven bits, in two bytes. -/
theorem units_cons_twoBytes {n : Nat} (bits : n < 0x800) (rest : List UInt8) :
    units (UInt8.ofNat (0xC0 + n / 64) :: UInt8.ofNat (0x80 + n % 64) :: rest)
      = UInt16.ofNat n :: units rest := by
  have low : n % 64 < 64 := Nat.mod_lt _ (by decide)
  have first : (UInt8.ofNat (0xC0 + n / 64)).toNat = 0xC0 + n / 64 := by
    rw [UInt8.toNat_ofNat']
    omega
  have start : startsTwo (UInt8.ofNat (0xC0 + n / 64)) = true := by
    simp only [startsTwo, first, Bool.and_eq_true, decide_eq_true_eq]
    omega
  have value : (0xC0 + n / 64) % 32 * 64 + (0x80 + n % 64) % 64 = n := by
    omega
  rw [units_cons_two start (isContinuation_ofNat low), twoBytes, first, toNat_continuation low,
    value]

/-- A number of sixteen bits, in three. -/
theorem units_cons_threeBytes {n : Nat} (bits : n < 0x10000) (rest : List UInt8) :
    units (UInt8.ofNat (0xE0 + n / 4096) :: UInt8.ofNat (0x80 + n / 64 % 64)
        :: UInt8.ofNat (0x80 + n % 64) :: rest)
      = UInt16.ofNat n :: units rest := by
  have low : n % 64 < 64 := Nat.mod_lt _ (by decide)
  have middle : n / 64 % 64 < 64 := Nat.mod_lt _ (by decide)
  have first : (UInt8.ofNat (0xE0 + n / 4096)).toNat = 0xE0 + n / 4096 := by
    rw [UInt8.toNat_ofNat']
    omega
  have start : startsThree (UInt8.ofNat (0xE0 + n / 4096)) = true := by
    simp only [startsThree, first, Bool.and_eq_true, decide_eq_true_eq]
    omega
  -- The marks are multiples of what the reader divides by, and fall away.
  have value : (0xE0 + n / 4096) % 16 * 4096 + (0x80 + n / 64 % 64) % 64 * 64
      + (0x80 + n % 64) % 64 = n := by
    omega
  rw [units_cons_three start (isContinuation_ofNat middle) (isContinuation_ofNat low), threeBytes,
    first, toNat_continuation middle, toNat_continuation low, value]

/-- The bytes of a unit come off the front as that unit. -/
theorem units_encodeUnit_append (u : UInt16) (rest : List UInt8) :
    units (encodeUnit u ++ rest) = u :: units rest := by
  unfold encodeUnit
  dsimp only
  -- As many bytes as the encoder chose; only U+0000 takes two although it would fit one.
  split
  · rename_i one
    have byte : (UInt8.ofNat u.toNat).toNat = u.toNat := by
      rw [UInt8.toNat_ofNat']
      omega
    rw [List.singleton_append, units_cons_of_lt (by omega), oneByte, byte, if_pos one.2,
      UInt16.ofNat_toNat]
  · split
    · rename_i two
      rw [List.cons_append, List.singleton_append, units_cons_twoBytes two, UInt16.ofNat_toNat]
    · rw [List.cons_append, List.cons_append, List.singleton_append,
        units_cons_threeBytes (UInt16.toNat_lt u), UInt16.ofNat_toNat]

/-- The bytes of several units come off the front as these units. -/
theorem units_flatMap_encodeUnit_append (us : List UInt16) (rest : List UInt8) :
    units (us.flatMap encodeUnit ++ rest) = us ++ units rest := by
  induction us with
  | nil => rfl
  | cons u us ih =>
      rw [List.flatMap_cons, List.append_assoc, units_encodeUnit_append, ih, List.cons_append]

/-- The units of an encoding are those of its text. -/
theorem units_encode (s : String) : units (encode s) = s.toList.flatMap Utf16.units := by
  have h := units_flatMap_encodeUnit_append (s.toList.flatMap Utf16.units) []
  rw [List.append_nil] at h
  rw [encode, h]
  exact List.append_nil _

/-- **Text survives its encoding.** -/
theorem decode_encode (s : String) : decode (encode s) = s := by
  have h := Utf16.chars_flatMap_units_append s.toList []
  rw [List.append_nil, Utf16.chars_nil, List.append_nil] at h
  rw [decode, units_encode, h]
  exact String.ofList_toList

/-! ## Cut encodings -/

/-- A unit takes at most three bytes. -/
theorem length_le_units : ∀ bytes : List UInt8, bytes.length ≤ 3 * (units bytes).length
  | [] => Nat.le_refl 0
  | [_] => by
      show 1 ≤ 3 * 1
      decide
  | [a, b] => by
      rw [units_cons_cons]
      split <;> simp
  | a :: b :: c :: rest => by
      -- The first unit takes one, two or three bytes, and the rest follows by induction.
      have skip₃ := length_le_units rest
      have skip₂ := length_le_units (c :: rest)
      have skip₁ := length_le_units (b :: c :: rest)
      simp only [List.length_cons] at skip₁ skip₂
      rw [units_cons_cons_cons]
      split
      · simp only [List.length_cons]
        omega
      · split
        · simp only [List.length_cons]
          omega
        · simp only [List.length_cons]
          omega

/-- Five more bytes give more units, wherever the seam falls. -/
theorem units_length_lt_append {back : List UInt8} (long : 5 ≤ back.length) :
    ∀ front : List UInt8, (units front).length < (units (front ++ back)).length
  | [] => by
      have h := length_le_units back
      rw [List.nil_append]
      show 0 < _
      omega
  | [a] => by
      have h := length_le_units (a :: back)
      rw [List.length_cons] at h
      rw [List.singleton_append]
      show 1 < _
      omega
  | [a, b] => by
      have h := length_le_units (a :: b :: back)
      have two : (units [a, b]).length ≤ 2 := by
        rw [units_cons_cons]
        split <;> simp
      rw [List.length_cons, List.length_cons] at h
      rw [List.cons_append, List.singleton_append]
      omega
  | a :: b :: c :: rest => by
      -- The first unit is the same on both sides, whatever its bytes are.
      have skip₃ := units_length_lt_append long rest
      have skip₂ := units_length_lt_append long (c :: rest)
      have skip₁ := units_length_lt_append long (b :: c :: rest)
      simp only [List.cons_append] at skip₁ skip₂ ⊢
      rw [units_cons_cons_cons, units_cons_cons_cons]
      split
      · simp only [List.length_cons]
        omega
      · split
        · simp only [List.length_cons]
          omega
        · simp only [List.length_cons]
          omega

/-- An encoding that lost five bytes or more at its end decodes to another text. -/
theorem decode_ne_of_cut {s : String} {front back : List UInt8}
    (cut : encode s = front ++ back) (long : 5 ≤ back.length) : decode front ≠ s := by
  intro same
  have text : Utf16.chars (units front) = s.toList := by
    rw [← same, decode, String.toList_ofList]
  have count : (units front).length = (units (front ++ back)).length := by
    rw [← cut, units_encode, ← text, Utf16.length_flatMap_units_chars]
  have more := units_length_lt_append long front
  omega

/-! ## Reading and writing again

Bytes that are no encoding are read all the same, and the text that comes of them may take
more bytes than they are. A unit takes a byte at least to read, and three at most to
write. -/

/-- Bytes that are the encoding of a text are the encoding of what they are read as. -/
theorem exists_eq_encode_iff (bytes : List UInt8) :
    (∃ s, bytes = encode s) ↔ encode (decode bytes) = bytes := by
  constructor
  · rintro ⟨s, rfl⟩
    rw [decode_encode]
  · intro same
    exact ⟨decode bytes, same.symm⟩

theorem length_encodeUnit_le (u : UInt16) : (encodeUnit u).length ≤ 3 := by
  unfold encodeUnit
  dsimp only
  split
  · simp
  · split <;> simp

/-- A unit is read from at least one byte. -/
theorem length_units_le : ∀ bytes : List UInt8, (units bytes).length ≤ bytes.length
  | [] => Nat.le_refl 0
  | [_] => Nat.le_refl 1
  | [a, b] => by
      rw [units_cons_cons]
      split <;> simp
  | a :: b :: c :: rest => by
      have skip₃ := length_units_le rest
      have skip₂ := length_units_le (c :: rest)
      have skip₁ := length_units_le (b :: c :: rest)
      rw [units_cons_cons_cons]
      split
      · simp only [List.length_cons]
        omega
      · split
        · simp only [List.length_cons] at skip₂ ⊢
          omega
        · simp only [List.length_cons] at skip₁ ⊢
          omega

/-- Written again, bytes take at most three times the room. -/
theorem length_encode_decode_le (bytes : List UInt8) :
    (encode (decode bytes)).length ≤ 3 * bytes.length := by
  have text : (decode bytes).toList = Utf16.chars (units bytes) := by
    rw [decode, String.toList_ofList]
  have written : ∀ us : List UInt16, (us.flatMap encodeUnit).length ≤ 3 * us.length := by
    intro us
    induction us with
    | nil => exact Nat.le_refl 0
    | cons u us ih =>
        have one := length_encodeUnit_le u
        rw [List.flatMap_cons, List.length_append, List.length_cons]
        omega
  -- Bytes to units, units to characters and back, and units to bytes.
  have units_le := length_units_le bytes
  have h := written ((decode bytes).toList.flatMap Utf16.units)
  rw [text, Utf16.length_flatMap_units_chars] at h
  rw [encode, text]
  omega

/-- The bound is met by bytes that neither are a unit nor start one: each is read as the
replacement character. -/
theorem length_encode_decode_stray (n : Nat) :
    (encode (decode (List.replicate n 0x80))).length = 3 * n := by
  have alone : ∀ n, units (List.replicate n 0x80) = List.replicate n 0xFFFD := by
    intro n
    induction n with
    | zero => rfl
    | succ n ih =>
        rw [List.replicate_succ, units_cons_alone rfl rfl, ih]
        rfl
  have replaced : ∀ n, Utf16.chars (List.replicate n 0xFFFD)
      = List.replicate n Utf16.replacement := by
    intro n
    induction n with
    | zero => rfl
    | succ n ih =>
        rw [List.replicate_succ, Utf16.chars_cons_of_not_high rfl, ih]
        rfl
  -- U+FFFD is written in three bytes.
  have three : (Utf16.units Utf16.replacement).flatMap encodeUnit = [0xEF, 0xBF, 0xBD] := by
    decide
  rw [encode, decode, String.toList_ofList, alone, replaced, List.flatMap_assoc,
    List.flatMap_replicate, three]
  simp [Nat.mul_comm]

end ModifiedUtf8

end ClassOutline
