import ClassOutline.Proofs.TextCodec

/-!
Encoded text keeps to itself, whatever stands around it.

The bytes of a text can be set between any two strings of bytes, malformed or not, and
decoding the whole gives the text between what the two sides decode to. Nothing is
swallowed and nothing is altered at the seams, for two reasons, one on each layer.

* A unit is never finished by the bytes of a text. Only a continuation byte can finish a
  unit that was begun, and no unit that is written begins with one. A lead byte in front
  of the seam therefore finds no more there than it finds at the end of the stream
  (`units_append`).
* A pair is never finished by the units of a text. Only a low surrogate can finish a
  pair, and no character begins with one (`chars_append`).

The seam behind the text needs no argument of this kind: what was written comes off the
front as a whole (`units_flatMap_encodeUnit_append`, `chars_flatMap_units_append`).
-/

set_option autoImplicit false

namespace ClassOutline

/-! ## Units -/

namespace Utf16

/-- A unit in front of one that finishes no pair is a character by itself. -/
theorem chars_cons_of_not_low (u : UInt16) {v : UInt16} (low : isLow v = false)
    (rest : List UInt16) : chars (u :: v :: rest) = single u :: chars (v :: rest) := by
  rw [chars_cons_cons, low, Bool.and_false]
  rfl

/-- Units that do not begin with a low surrogate are decoded by themselves. -/
theorem chars_append {back : List UInt16} (fresh : ∀ v ∈ back.head?, isLow v = false) :
    ∀ front : List UInt16, chars (front ++ back) = chars front ++ chars back
  | [] => by
      rw [List.nil_append, chars_nil, List.nil_append]
  | [u] => by
      cases back with
      | nil => rfl
      | cons v back =>
          have low : isLow v = false := fresh v rfl
          rw [List.singleton_append, chars_cons_of_not_low u low, chars_singleton,
            List.singleton_append]
  | u :: v :: front => by
      -- The first character is found in `front` alone, so it is the same on both sides.
      have skip₂ := chars_append fresh front
      have skip₁ := chars_append fresh (v :: front)
      rw [List.cons_append] at skip₁
      rw [List.cons_append, List.cons_append, chars_cons_cons, chars_cons_cons]
      by_cases both : (isHigh u && isLow v) = true
      · rw [if_pos both, if_pos both, skip₂, List.cons_append]
      · rw [if_neg both, if_neg both, skip₁, List.cons_append]

theorem isLow_eq_false {n : Nat} (unit : n < 0x10000) (outside : n < 0xDC00 ∨ 0xE000 ≤ n) :
    isLow (UInt16.ofNat n) = false := by
  simp only [isLow, UInt16.toNat_ofNat', Bool.and_eq_false_iff, decide_eq_false_iff_not]
  omega

/-- The first unit of a character is no low surrogate. -/
theorem units_head (c : Char) : ∃ u rest, units c = u :: rest ∧ isLow u = false := by
  have valid : c.toNat < 0xD800 ∨ 0xDFFF < c.toNat ∧ c.toNat < 0x110000 := c.valid
  unfold units
  dsimp only
  by_cases small : c.toNat < 0x10000
  · rw [if_pos small]
    exact ⟨_, _, rfl, isLow_eq_false small (by omega)⟩
  · rw [if_neg small]
    exact ⟨_, _, rfl, isLow_eq_false (by omega) (by omega)⟩

/-- A text stands apart from any units in front of it and behind it. -/
theorem chars_append_units_append {text : List Char} (nonempty : text ≠ [])
    (front back : List UInt16) :
    chars (front ++ (text.flatMap units ++ back)) = chars front ++ (text ++ chars back) := by
  have fresh : ∀ v ∈ (text.flatMap units ++ back).head?, isLow v = false := by
    intro v hv
    obtain ⟨c, cs, rfl⟩ := List.exists_cons_of_ne_nil nonempty
    obtain ⟨u, rest, spelled, low⟩ := units_head c
    rw [List.flatMap_cons, spelled, List.cons_append, List.cons_append, List.head?_cons,
      Option.mem_some_iff] at hv
    rw [← hv]
    exact low
  rw [chars_append fresh, chars_flatMap_units_append]

end Utf16

/-! ## Bytes -/

namespace ModifiedUtf8

@[simp] theorem units_nil : units [] = [] := rfl

/-- A byte in front of one that goes on no unit is a unit by itself. -/
theorem units_cons_of_not_continuation (a : UInt8) {b : UInt8} (stop : isContinuation b = false)
    (rest : List UInt8) : units (a :: b :: rest) = oneByte a :: units (b :: rest) := by
  match rest with
  | [] =>
      rw [units_cons_cons, stop, Bool.and_false]
      rfl
  | c :: rest =>
      rw [units_cons_cons_cons, stop, Bool.and_false, Bool.and_false, Bool.false_and]
      rfl

/-- Bytes that do not begin with a continuation are decoded by themselves. -/
theorem units_append {back : List UInt8} (fresh : ∀ b ∈ back.head?, isContinuation b = false) :
    ∀ front : List UInt8, units (front ++ back) = units front ++ units back
  | [] => rfl
  | [a] => by
      cases back with
      | nil => rw [List.append_nil, units_nil, List.append_nil]
      | cons x back =>
          rw [List.singleton_append, units_cons_of_not_continuation a (fresh x rfl)]
          rfl
  | [a, b] => by
      cases back with
      | nil => rw [List.append_nil, units_nil, List.append_nil]
      | cons x back =>
          -- A lead byte of three is cut short here, and reading goes on one byte later.
          have stop : isContinuation x = false := fresh x rfl
          rw [List.cons_append, List.singleton_append, units_cons_cons_cons, units_cons_cons, stop,
            Bool.and_false, units_cons_of_not_continuation b stop]
          by_cases two : (startsTwo a && isContinuation b) = true
          · rw [if_neg Bool.false_ne_true, if_pos two, if_pos two]
            rfl
          · rw [if_neg Bool.false_ne_true, if_neg two, if_neg two]
            rfl
  | a :: b :: c :: front => by
      have skip₃ := units_append fresh front
      have skip₂ := units_append fresh (c :: front)
      have skip₁ := units_append fresh (b :: c :: front)
      simp only [List.cons_append] at skip₁ skip₂ ⊢
      rw [units_cons_cons_cons, units_cons_cons_cons]
      by_cases three : (startsThree a && isContinuation b && isContinuation c) = true
      · rw [if_pos three, if_pos three, skip₃, List.cons_append]
      · rw [if_neg three, if_neg three]
        by_cases two : (startsTwo a && isContinuation b) = true
        · rw [if_pos two, if_pos two, skip₂, List.cons_append]
        · rw [if_neg two, if_neg two, skip₁, List.cons_append]

theorem isContinuation_eq_false {n : Nat} (byte : n < 256) (outside : n < 0x80 ∨ 0xC0 ≤ n) :
    isContinuation (UInt8.ofNat n) = false := by
  simp only [isContinuation, UInt8.toNat_ofNat', Bool.and_eq_false_iff, decide_eq_false_iff_not]
  omega

/-- The first byte of a unit is no continuation. -/
theorem encodeUnit_head (u : UInt16) :
    ∃ b rest, encodeUnit u = b :: rest ∧ isContinuation b = false := by
  have bound : u.toNat < 65536 := UInt16.toNat_lt u
  unfold encodeUnit
  dsimp only
  split
  · exact ⟨_, _, rfl, isContinuation_eq_false (by omega) (by omega)⟩
  · split
    · exact ⟨_, _, rfl, isContinuation_eq_false (by omega) (by omega)⟩
    · exact ⟨_, _, rfl, isContinuation_eq_false (by omega) (by omega)⟩

/-- Written units stand apart from any bytes in front of them and behind them. -/
theorem units_append_encodeUnit_append {us : List UInt16} (nonempty : us ≠ [])
    (front back : List UInt8) :
    units (front ++ (us.flatMap encodeUnit ++ back)) = units front ++ (us ++ units back) := by
  have fresh : ∀ b ∈ (us.flatMap encodeUnit ++ back).head?, isContinuation b = false := by
    intro b hb
    obtain ⟨u, rest, rfl⟩ := List.exists_cons_of_ne_nil nonempty
    obtain ⟨first, tail, written, stop⟩ := encodeUnit_head u
    rw [List.flatMap_cons, written, List.cons_append, List.cons_append, List.head?_cons,
      Option.mem_some_iff] at hb
    rw [← hb]
    exact stop
  rw [units_append fresh, units_flatMap_encodeUnit_append]

/-! ## Text -/

/-- A text that has characters has units. -/
theorem flatMap_units_ne_nil {text : List Char} (nonempty : text ≠ []) :
    text.flatMap Utf16.units ≠ [] := by
  obtain ⟨c, cs, rfl⟩ := List.exists_cons_of_ne_nil nonempty
  obtain ⟨u, rest, spelled, -⟩ := Utf16.units_head c
  rw [List.flatMap_cons, spelled]
  exact List.cons_ne_nil _ _

/-- **Decoding undoes encoding, in any surrounding.** A text comes back from its bytes, and
if there is any text at all, so it does from between bytes that need not be an encoding
of anything: these decode to what they decode to by themselves. -/
theorem decode_around_encode (s : String) :
    decode (encode s) = s ∧
    (s ≠ "" → ∀ front back : List UInt8,
      decode (front ++ encode s ++ back) = decode front ++ s ++ decode back) := by
  refine ⟨decode_encode s, ?_⟩
  intro nonempty front back
  have text : s.toList ≠ [] := by
    intro empty
    exact nonempty (String.toList_eq_nil_iff.mp empty)
  have decoded : units (front ++ encode s ++ back)
      = units front ++ (s.toList.flatMap Utf16.units ++ units back) := by
    rw [List.append_assoc, encode]
    exact units_append_encodeUnit_append (flatMap_units_ne_nil text) front back
  -- First the units are set apart, and then the characters.
  rw [decode, decoded, Utf16.chars_append_units_append text, String.ofList_append,
    String.ofList_append, String.ofList_toList, String.append_assoc]
  rfl

/-- A lead byte of three that is cut short and a high surrogate without its partner in
front, a stray continuation and a low surrogate behind, and between them U+1F600, which
is itself a pair: the four faults stay four replacement characters. -/
theorem decode_around_encode_pair :
    "😀" ≠ "" ∧
    decode ([0xE2, 0xED, 0xA0, 0xBD] ++ encode "😀" ++ [0x80, 0xED, 0xB8, 0x80])
      = "\uFFFD\uFFFD" ++ "😀" ++ "\uFFFD\uFFFD" := by
  have nonempty : "😀" ≠ "" := by decide
  have front : decode [0xE2, 0xED, 0xA0, 0xBD] = "\uFFFD\uFFFD" := by decide
  have back : decode [0x80, 0xED, 0xB8, 0x80] = "\uFFFD\uFFFD" := by decide
  refine ⟨nonempty, ?_⟩
  rw [(decode_around_encode "😀").2 nonempty, front, back]

end ModifiedUtf8

end ClassOutline
