import ClassOutline.Proofs.TextCodec

/-!
Which bytes are the encoding of a text.

Decoding accepts all bytes, but most of them do not come back when the text is written
again: a byte 00, a unit in more bytes than it needs, a surrogate without its partner and a
stray byte are all read as something that is written differently. The bytes that do come
back are those of a grammar, and the grammar is that of the encodings.

`CharBytes` has one rule for each way a character is written, with the ranges of its bytes.
It is compared with the encoding one layer at a time: a character is a unit that is no
surrogate, or a pair (`units_eq_cases`, `exists_units_eq_singleton`,
`exists_units_eq_pair`), and a unit is written in one, two or three bytes
(`encodeUnit_oneByte`, `encodeUnit_twoBytes`, `encodeUnit_threeBytes` say which bytes these
are). A text is a sequence of characters on both sides.
-/

set_option autoImplicit false

namespace ClassOutline

/-! ## Units of characters -/

namespace Utf16

theorem not_surrogate {u : UInt16} (outside : u.toNat < 0xD800 ∨ 0xE000 ≤ u.toNat) :
    isHigh u = false ∧ isLow u = false := by
  simp only [isHigh, isLow, Bool.and_eq_false_iff, decide_eq_false_iff_not]
  omega

/-- A unit that is no surrogate is a character. -/
theorem exists_units_eq_singleton {u : UInt16} (outside : u.toNat < 0xD800 ∨ 0xE000 ≤ u.toNat) :
    ∃ c, units c = [u] := by
  have bound : u.toNat < 0x10000 := UInt16.toNat_lt u
  obtain ⟨high, low⟩ := not_surrogate outside
  refine ⟨Char.ofNat u.toNat, ?_⟩
  rw [units, toNat_ofNat_unit high low, if_pos bound, UInt16.ofNat_toNat]

/-- A pair is a character. -/
theorem exists_units_eq_pair {u v : UInt16} (high : 0xD800 ≤ u.toNat ∧ u.toNat < 0xDC00)
    (low : 0xDC00 ≤ v.toNat ∧ v.toNat < 0xE000) : ∃ c, units c = [u, v] := by
  have value : (pair u v).toNat = 0x10000 + (u.toNat - 0xD800) * 0x400 + (v.toNat - 0xDC00) :=
    toNat_pair (by simpa [isHigh] using high) (by simpa [isLow] using low)
  have first : 0xD800 + ((pair u v).toNat - 0x10000) / 0x400 = u.toNat := by omega
  have second : 0xDC00 + ((pair u v).toNat - 0x10000) % 0x400 = v.toNat := by omega
  refine ⟨pair u v, ?_⟩
  rw [units, if_neg (by omega), first, second, UInt16.ofNat_toNat, UInt16.ofNat_toNat]

/-- And a character is nothing else. -/
theorem units_eq_cases (c : Char) :
    (∃ u, units c = [u] ∧ (u.toNat < 0xD800 ∨ 0xE000 ≤ u.toNat)) ∨
      ∃ u v, units c = [u, v] ∧ (0xD800 ≤ u.toNat ∧ u.toNat < 0xDC00) ∧
        0xDC00 ≤ v.toNat ∧ v.toNat < 0xE000 := by
  have valid : c.toNat < 0xD800 ∨ 0xDFFF < c.toNat ∧ c.toNat < 0x110000 := c.valid
  by_cases small : c.toNat < 0x10000
  · left
    refine ⟨_, by rw [units, if_pos small], ?_⟩
    rw [UInt16.toNat_ofNat']
    omega
  · right
    refine ⟨_, _, by rw [units, if_neg small], ?_⟩
    rw [UInt16.toNat_ofNat', UInt16.toNat_ofNat']
    omega

end Utf16

namespace ModifiedUtf8

/-! ## The grammar -/

/-- A byte from `low` to `high`, both included. -/
def InRange (low high : Nat) (b : UInt8) : Prop := low ≤ b.toNat ∧ b.toNat ≤ high

instance (low high : Nat) (b : UInt8) : Decidable (InRange low high b) :=
  inferInstanceAs (Decidable (low ≤ b.toNat ∧ b.toNat ≤ high))

theorem InRange.mono {low high low' high' : Nat} {b : UInt8} (h : InRange low high b)
    (below : low' ≤ low) (above : high ≤ high') : InRange low' high' b :=
  ⟨Nat.le_trans below h.1, Nat.le_trans h.2 above⟩

/-- The bytes of a character. -/
inductive CharBytes : List UInt8 → Prop
  | one {a : UInt8} : InRange 0x01 0x7F a → CharBytes [a]
  /-- U+0000, the only character in more bytes than its number asks for -/
  | null : CharBytes [0xC0, 0x80]
  | two {a b : UInt8} : InRange 0xC2 0xDF a → InRange 0x80 0xBF b → CharBytes [a, b]
  /-- from U+0800, since what is below takes two bytes -/
  | threeE0 {b c : UInt8} : InRange 0xA0 0xBF b → InRange 0x80 0xBF c → CharBytes [0xE0, b, c]
  | three {a b c : UInt8} : InRange 0xE1 0xEC a ∨ a = 0xEE ∨ a = 0xEF →
      InRange 0x80 0xBF b → InRange 0x80 0xBF c → CharBytes [a, b, c]
  /-- up to U+D7FF, since what is above is a surrogate -/
  | threeED {b c : UInt8} : InRange 0x80 0x9F b → InRange 0x80 0xBF c → CharBytes [0xED, b, c]
  /-- beyond U+FFFF: a high surrogate and a low one -/
  | pair {b c b' c' : UInt8} : InRange 0xA0 0xAF b → InRange 0x80 0xBF c →
      InRange 0xB0 0xBF b' → InRange 0x80 0xBF c' → CharBytes [0xED, b, c, 0xED, b', c']

/-- The bytes of some characters, one after the other. -/
def Grammatical (bytes : List UInt8) : Prop :=
  ∃ groups : List (List UInt8), (∀ group ∈ groups, CharBytes group) ∧ bytes = groups.flatten

/-! ## Bytes of units -/

/-- A byte of ASCII other than 00 is that of its unit. -/
theorem encodeUnit_oneByte {a : UInt8} (range : InRange 0x01 0x7F a) :
    encodeUnit (oneByte a) = [a] := by
  obtain ⟨low, high⟩ := range
  have value : (oneByte a).toNat = a.toNat := by
    rw [oneByte, if_pos (by omega), UInt16.toNat_ofNat']
    omega
  rw [encodeUnit, value, if_pos (by omega), UInt8.ofNat_toNat]

/-- Two bytes are those of their unit if it does not fit into one. -/
theorem encodeUnit_twoBytes {a b : UInt8} (lead : InRange 0xC0 0xDF a) (tail : InRange 0x80 0xBF b)
    (needed : 0xC2 ≤ a.toNat ∨ a = 0xC0 ∧ b = 0x80) : encodeUnit (twoBytes a b) = [a, b] := by
  obtain ⟨lowA, highA⟩ := lead
  obtain ⟨lowB, highB⟩ := tail
  have value : (twoBytes a b).toNat = (a.toNat - 0xC0) * 64 + (b.toNat - 0x80) := by
    rw [twoBytes, UInt16.toNat_ofNat']
    omega
  -- Below C2 the unit would fit one byte, except that 0 is written in two.
  have long : ¬(1 ≤ (twoBytes a b).toNat ∧ (twoBytes a b).toNat < 0x80) := by
    rw [value]
    rcases needed with large | ⟨rfl, rfl⟩
    · omega
    · decide
  have first : 0xC0 + (twoBytes a b).toNat / 64 = a.toNat := by omega
  have second : 0x80 + (twoBytes a b).toNat % 64 = b.toNat := by omega
  rw [encodeUnit, if_neg long, if_pos (by omega), first, second, UInt8.ofNat_toNat,
    UInt8.ofNat_toNat]

theorem toNat_threeBytes {a b c : UInt8} (lead : InRange 0xE0 0xEF a)
    (middle : InRange 0x80 0xBF b) (tail : InRange 0x80 0xBF c) :
    (threeBytes a b c).toNat
      = (a.toNat - 0xE0) * 4096 + (b.toNat - 0x80) * 64 + (c.toNat - 0x80) := by
  obtain ⟨lowA, highA⟩ := lead
  obtain ⟨lowB, highB⟩ := middle
  obtain ⟨lowC, highC⟩ := tail
  rw [threeBytes, UInt16.toNat_ofNat']
  omega

/-- Three bytes are those of their unit if it does not fit into two. -/
theorem encodeUnit_threeBytes {a b c : UInt8} (lead : InRange 0xE0 0xEF a)
    (middle : InRange 0x80 0xBF b) (tail : InRange 0x80 0xBF c)
    (needed : 0xE1 ≤ a.toNat ∨ 0xA0 ≤ b.toNat) : encodeUnit (threeBytes a b c) = [a, b, c] := by
  have value := toNat_threeBytes lead middle tail
  obtain ⟨lowA, highA⟩ := lead
  obtain ⟨lowB, highB⟩ := middle
  obtain ⟨lowC, highC⟩ := tail
  have first : 0xE0 + (threeBytes a b c).toNat / 4096 = a.toNat := by omega
  have second : 0x80 + (threeBytes a b c).toNat / 64 % 64 = b.toNat := by omega
  have third : 0x80 + (threeBytes a b c).toNat % 64 = c.toNat := by omega
  rw [encodeUnit, if_neg (by omega), if_neg (by omega), first, second, third, UInt8.ofNat_toNat,
    UInt8.ofNat_toNat, UInt8.ofNat_toNat]

/-! ## Bytes of characters -/

/-- The bytes of a character, by way of its units. -/
def encodeChar (c : Char) : List UInt8 := (Utf16.units c).flatMap encodeUnit

/-- An encoding is that of its characters, one after the other. -/
theorem encode_eq_flatten (s : String) : encode s = (s.toList.map encodeChar).flatten := by
  rw [encode, List.flatMap_assoc, List.flatMap_def]
  rfl

/-- The bytes of a unit that is no surrogate are those of a character. -/
theorem exists_encodeChar_eq_of_unit {u : UInt16} (outside : u.toNat < 0xD800 ∨ 0xE000 ≤ u.toNat) :
    ∃ c, encodeChar c = encodeUnit u := by
  obtain ⟨c, spelled⟩ := Utf16.exists_units_eq_singleton outside
  exact ⟨c, by rw [encodeChar, spelled, List.flatMap_singleton]⟩

/-- Three bytes that are neither too many nor those of a surrogate. -/
theorem exists_encodeChar_eq_three {a b c : UInt8} (lead : InRange 0xE0 0xEF a)
    (middle : InRange 0x80 0xBF b) (tail : InRange 0x80 0xBF c)
    (needed : 0xE1 ≤ a.toNat ∨ 0xA0 ≤ b.toNat) (plain : a.toNat ≠ 0xED ∨ b.toNat < 0xA0) :
    ∃ char, encodeChar char = [a, b, c] := by
  have value := toNat_threeBytes lead middle tail
  rw [← encodeUnit_threeBytes lead middle tail needed]
  obtain ⟨lowA, highA⟩ := lead
  obtain ⟨lowB, highB⟩ := middle
  obtain ⟨lowC, highC⟩ := tail
  apply exists_encodeChar_eq_of_unit
  omega

/-- Two surrogates in three bytes each are those of one character. -/
theorem exists_encodeChar_eq_pair {b c b' c' : UInt8} (high : InRange 0xA0 0xAF b)
    (tail : InRange 0x80 0xBF c) (low : InRange 0xB0 0xBF b') (tail' : InRange 0x80 0xBF c') :
    ∃ char, encodeChar char = [0xED, b, c, 0xED, b', c'] := by
  have lead : InRange 0xE0 0xEF 0xED := by decide
  have middle : InRange 0x80 0xBF b := high.mono (by decide) (by decide)
  have middle' : InRange 0x80 0xBF b' := low.mono (by decide) (by decide)
  have first := toNat_threeBytes lead middle tail
  have second := toNat_threeBytes lead middle' tail'
  have byte : (0xED : UInt8).toNat = 0xED := rfl
  have written := encodeUnit_threeBytes lead middle tail (.inl (by decide))
  have written' := encodeUnit_threeBytes lead middle' tail' (.inl (by decide))
  obtain ⟨lowB, highB⟩ := high
  obtain ⟨lowB', highB'⟩ := low
  obtain ⟨lowC, highC⟩ := tail
  obtain ⟨lowC', highC'⟩ := tail'
  -- By their second bytes the one is a high surrogate and the other a low one.
  obtain ⟨char, spelled⟩ := Utf16.exists_units_eq_pair
    (u := threeBytes 0xED b c) (v := threeBytes 0xED b' c') (by omega) (by omega)
  refine ⟨char, ?_⟩
  rw [encodeChar, spelled, List.flatMap_cons, List.flatMap_singleton, written, written']
  rfl

/-- Each rule of the grammar writes a character. -/
theorem CharBytes.exists_encodeChar_eq {bytes : List UInt8} (h : CharBytes bytes) :
    ∃ char, encodeChar char = bytes := by
  -- The ranges of each rule keep out what would be written in fewer bytes, and surrogates.
  cases h with
  | @one a range =>
      rw [← encodeUnit_oneByte range]
      obtain ⟨low, high⟩ := range
      refine exists_encodeChar_eq_of_unit (.inl ?_)
      rw [oneByte, if_pos (by omega), UInt16.toNat_ofNat']
      omega
  | null => exact ⟨'\x00', rfl⟩
  | @two a b lead tail =>
      rw [← encodeUnit_twoBytes (lead.mono (by decide) (by decide)) tail (.inl lead.1)]
      refine exists_encodeChar_eq_of_unit (.inl ?_)
      rw [twoBytes, UInt16.toNat_ofNat']
      omega
  | threeE0 middle tail =>
      exact exists_encodeChar_eq_three (by decide) (middle.mono (by decide) (by decide)) tail
        (.inr middle.1) (.inl (by decide))
  | @three a b c lead middle tail =>
      have range : InRange 0xE1 0xEF a ∧ a.toNat ≠ 0xED := by
        rcases lead with range | rfl | rfl
        · exact ⟨range.mono (by decide) (by decide), by have := range.2; omega⟩
        · decide
        · decide
      exact exists_encodeChar_eq_three (range.1.mono (by decide) (by decide)) middle tail
        (.inl range.1.1) (.inl range.2)
  | @threeED b c middle tail =>
      exact exists_encodeChar_eq_three (by decide) (middle.mono (by decide) (by decide)) tail
        (.inl (by decide)) (.inr (by have := middle.2; omega))
  | pair high tail low tail' => exact exists_encodeChar_eq_pair high tail low tail'

/-! The other direction goes through the number of a unit, since that is what the encoder
looks at. -/

theorem inRange_ofNat {low high n : Nat} (byte : n < 256) (h : low ≤ n ∧ n ≤ high) :
    InRange low high (UInt8.ofNat n) := by
  rw [InRange, UInt8.toNat_ofNat', Nat.mod_eq_of_lt byte]
  exact h

theorem inRange_tail (n : Nat) : InRange 0x80 0xBF (UInt8.ofNat (0x80 + n % 64)) :=
  inRange_ofNat (by omega) (by omega)

/-- A unit that is no surrogate is written by one of the rules. -/
theorem charBytes_encodeUnit {u : UInt16} (outside : u.toNat < 0xD800 ∨ 0xE000 ≤ u.toNat) :
    CharBytes (encodeUnit u) := by
  have bound : u.toNat < 0x10000 := UInt16.toNat_lt u
  unfold encodeUnit
  dsimp only
  generalize u.toNat = n at outside bound
  -- One, two or three bytes, as the encoder has it.
  split
  · exact .one (inRange_ofNat (by omega) (by omega))
  · split
    · by_cases null : n = 0
      · rw [null]
        exact .null
      · exact .two (inRange_ofNat (by omega) (by omega)) (inRange_tail n)
    · -- The lead byte E0 asks for a unit from U+0800, and ED for one that is no surrogate.
      by_cases first : n / 4096 = 0
      · rw [first]
        exact .threeE0 (inRange_ofNat (by omega) (by omega)) (inRange_tail n)
      · by_cases surrogates : n / 4096 = 0xD
        · rw [surrogates]
          exact .threeED (inRange_ofNat (by omega) (by omega)) (inRange_tail n)
        · refine .three ?_ (inRange_tail _) (inRange_tail n)
          by_cases low : n / 4096 < 0xD
          · exact .inl (inRange_ofNat (by omega) (by omega))
          · obtain last | last : n / 4096 = 0xE ∨ n / 4096 = 0xF := by omega
            · rw [last]
              exact .inr (.inl rfl)
            · rw [last]
              exact .inr (.inr rfl)

/-- A surrogate is written behind the byte ED. -/
theorem encodeUnit_surrogate {u : UInt16} (inside : 0xD800 ≤ u.toNat ∧ u.toNat < 0xE000) :
    encodeUnit u = [0xED, UInt8.ofNat (0x80 + u.toNat / 64 % 64), UInt8.ofNat (0x80 + u.toNat % 64)]
      := by
  have lead : u.toNat / 4096 = 0xD := by omega
  rw [encodeUnit, if_neg (by omega), if_neg (by omega), lead]
  rfl

/-- Every character is written by one of the rules. -/
theorem charBytes_encodeChar (c : Char) : CharBytes (encodeChar c) := by
  unfold encodeChar
  rcases Utf16.units_eq_cases c with ⟨u, spelled, outside⟩ | ⟨u, v, spelled, high, low⟩
  · rw [spelled, List.flatMap_singleton]
    exact charBytes_encodeUnit outside
  · rw [spelled, List.flatMap_cons, List.flatMap_singleton, encodeUnit_surrogate (by omega),
      encodeUnit_surrogate (by omega)]
    exact .pair (inRange_ofNat (by omega) (by omega)) (inRange_tail _)
      (inRange_ofNat (by omega) (by omega)) (inRange_tail _)

/-! ## Bytes of texts -/

/-- The encodings are the sentences of the grammar. -/
theorem exists_eq_encode_iff_grammatical (bytes : List UInt8) :
    (∃ s, bytes = encode s) ↔ Grammatical bytes := by
  constructor
  · rintro ⟨s, rfl⟩
    refine ⟨s.toList.map encodeChar, ?_, encode_eq_flatten s⟩
    intro group member
    obtain ⟨c, -, rfl⟩ := List.mem_map.mp member
    exact charBytes_encodeChar c
  · rintro ⟨groups, rules, rfl⟩
    -- Each group is a character, and these make the text.
    obtain ⟨text, written⟩ : ∃ text : List Char, text.map encodeChar = groups := by
      induction groups with
      | nil => exact ⟨[], rfl⟩
      | cons group groups ih =>
          obtain ⟨first, others⟩ := List.forall_mem_cons.mp rules
          obtain ⟨c, rfl⟩ := first.exists_encodeChar_eq
          obtain ⟨text, rfl⟩ := ih others
          exact ⟨c :: text, rfl⟩
    exact ⟨String.ofList text, by rw [encode_eq_flatten, String.toList_ofList, written]⟩

/-- No rule has a byte 00, nor one from F0. -/
theorem CharBytes.forall_inRange {bytes : List UInt8} (h : CharBytes bytes) :
    ∀ b ∈ bytes, InRange 0x01 0xEF b := by
  have tail : ∀ {b : UInt8}, InRange 0x80 0xBF b → InRange 0x01 0xEF b := fun range =>
    range.mono (by decide) (by decide)
  -- Rule by rule; the continuations are in the range anyway.
  cases h with
  | one range => simpa using range.mono (by decide) (by decide)
  | null =>
      have both : InRange 0x01 0xEF 0xC0 ∧ InRange 0x01 0xEF 0x80 := by decide
      simpa using both
  | two lead last => simpa using ⟨lead.mono (by decide) (by decide), tail last⟩
  | threeE0 middle last =>
      simpa using ⟨by decide, middle.mono (by decide) (by decide), tail last⟩
  | @three a b c lead middle last =>
      have first : InRange 0x01 0xEF a := by
        rcases lead with range | rfl | rfl
        · exact range.mono (by decide) (by decide)
        · decide
        · decide
      simpa using ⟨first, tail middle, tail last⟩
  | threeED middle last =>
      simpa using ⟨by decide, middle.mono (by decide) (by decide), tail last⟩
  | pair high last low last' =>
      simpa using ⟨by decide, high.mono (by decide) (by decide), tail last, by decide,
        low.mono (by decide) (by decide), tail last'⟩

/-- So no encoding has such a byte. -/
theorem inRange_of_mem_encode {s : String} {b : UInt8} (mem : b ∈ encode s) :
    InRange 0x01 0xEF b := by
  rw [encode_eq_flatten] at mem
  obtain ⟨group, inside, mem⟩ := List.mem_flatten.mp mem
  obtain ⟨c, -, rfl⟩ := List.mem_map.mp inside
  exact (charBytes_encodeChar c).forall_inRange b mem

/-- **The bytes that survive reading and writing again.** They are the sentences of the
grammar, whatever else is read: a byte 00, a unit in too many bytes, a lone surrogate and a
stray byte all change. No encoding has a byte 00 in it, or one from F0. -/
theorem encode_decode_eq_self_iff :
    (∀ bytes : List UInt8, encode (decode bytes) = bytes ↔ Grammatical bytes) ∧
    ∀ (s : String) (b : UInt8), b ∈ encode s → b ≠ 0x00 ∧ b.toNat < 0xF0 := by
  constructor
  · intro bytes
    rw [← exists_eq_encode_iff, exists_eq_encode_iff_grammatical]
  · intro s b mem
    obtain ⟨low, high⟩ := inRange_of_mem_encode mem
    refine ⟨?_, by omega⟩
    rintro rfl
    exact absurd low (by decide)

/-- U+1F600 and U+0000 as they are written are sentences. With the two halves of the pair in
the wrong order they are not, and neither is U+0000 as a byte 00. -/
theorem encode_decode_eq_self_iff_pair :
    Grammatical [0xED, 0xA0, 0xBD, 0xED, 0xB8, 0x80, 0xC0, 0x80] ∧
    ¬Grammatical [0xED, 0xB8, 0x80, 0xED, 0xA0, 0xBD, 0xC0, 0x80] ∧
    ¬Grammatical [0xED, 0xA0, 0xBD, 0xED, 0xB8, 0x80, 0x00] ∧
    (0xED : UInt8) ∈ encode "😀" ∧ ((0xED : UInt8) ≠ 0x00 ∧ (0xED : UInt8).toNat < 0xF0) := by
  obtain ⟨fixed, bytes⟩ := encode_decode_eq_self_iff
  have inside : (0xED : UInt8) ∈ encode "😀" := by decide
  refine ⟨(fixed _).mp (by decide), ?_, ?_, inside, bytes _ _ inside⟩
  · rw [← fixed]
    decide
  · rw [← fixed]
    decide

end ModifiedUtf8

end ClassOutline
