import ClassOutline.Pool.Lookup
import Mathlib.Tactic.SplitIfs

/-!
Literals read back, as Java reads them, to the constants they were made of.

`JavaLiteral.read?` is the reader: the part of the lexical grammar of Java that has string
literals and decimal literals of type `int` and `long` in it. It works in two phases, as the
language has it. First the Unicode escapes of the source text are translated, and only then are
quotes and backslashes looked at. The first phase counts backslashes: one that has an odd number
of them in front of it is itself escaped, and begins no Unicode escape.

A string literal is followed through both phases one character at a time. In front of what a
character is written as there is always an even number of backslashes, so the count never
matters beyond its parity (`translate_even`), and the first phase turns the character into
itself or leaves its short escape alone (`translate_escape`); the second phase then gives the
character (`readBody_halfway`). Numbers have no backslash in them, and the first phase
leaves them as they are (`translate_plain`).

The kind of a constant can be told from its literal because string literals begin with a quote,
literals of type `long` end in `L`, and those of type `int` in a digit. The literals of floating
point constants do none of this, and are not read at all.
-/

set_option autoImplicit false

namespace ClassOutline

namespace JavaLiteral

/-! ## Unicode escapes -/

/-- The value of a hexadecimal digit. -/
def hexValue? (c : Char) : Option Nat :=
  if 0x30 ≤ c.toNat ∧ c.toNat ≤ 0x39 then some (c.toNat - 0x30)
  else if 0x61 ≤ c.toNat ∧ c.toNat ≤ 0x66 then some (c.toNat - 0x57)
  else if 0x41 ≤ c.toNat ∧ c.toNat ≤ 0x46 then some (c.toNat - 0x37)
  else none

/-- The character of four hexadecimal digits. Half of a surrogate pair is none. -/
def hexChar? (a b c d : Char) : Option Char := do
  let a ← hexValue? a
  let b ← hexValue? b
  let c ← hexValue? c
  let d ← hexValue? d
  let n := ((a * 16 + b) * 16 + c) * 16 + d
  if n.isValidChar then some (Char.ofNat n) else none

/-- Translate the Unicode escapes of a text that has `run` backslashes directly in front of it.
A backslash behind an even number of them begins an escape if there is a `u` behind it, and
then four hexadecimal digits have to follow. -/
def translate (run : Nat) : List Char → Option (List Char)
  | [] => some []
  | c :: rest =>
      if c ≠ '\\' then (translate 0 rest).map (c :: ·)
      else if run % 2 = 0 ∧ rest.head? = some 'u' then
        match rest with
        | _ :: a :: b :: c :: d :: rest =>
            (hexChar? a b c d).bind fun x => (translate 0 rest).map (x :: ·)
        | _ => none
      else (translate (run + 1) rest).map (c :: ·)

/-! ## Strings -/

/-- The character that a letter behind a backslash stands for. -/
def unescape? (letter : Char) : Option Char :=
  if letter = 'b' then some '\x08'
  else if letter = 't' then some '\t'
  else if letter = 'n' then some '\n'
  else if letter = 'f' then some '\x0c'
  else if letter = 'r' then some '\r'
  else if letter = '"' then some '"'
  else if letter = '\\' then some '\\'
  else none

/-- The characters in front of the first quote that is not escaped, and what stands behind it.
A string does not go beyond the end of a line. -/
def readBody : List Char → Option (List Char × List Char)
  | [] => none
  | c :: rest =>
      if c = '"' then some ([], rest)
      else if c = '\\' then
        match rest with
        | [] => none
        | letter :: rest =>
            (unescape? letter).bind fun x => (readBody rest).map (Prod.map (x :: ·) id)
      else if c = '\n' ∨ c = '\r' then none
      else (readBody rest).map (Prod.map (c :: ·) id)

/-! ## The first phase -/

/-- A character other than a backslash is passed on, and ends a run of backslashes. -/
theorem translate_cons_of_ne {c : Char} (other : c ≠ '\\') (run : Nat) (rest : List Char) :
    translate run (c :: rest) = (translate 0 rest).map (c :: ·) := by
  conv => lhs; unfold translate
  rw [if_pos other]

/-- A backslash that begins no escape stays, and counts for the next character. -/
theorem translate_backslash {run : Nat} {rest : List Char}
    (alone : ¬(run % 2 = 0 ∧ rest.head? = some 'u')) :
    translate run ('\\' :: rest) = (translate (run + 1) rest).map ('\\' :: ·) := by
  conv => lhs; unfold translate
  rw [if_neg (by decide), if_neg alone]

/-- An even number of backslashes in front, and four digits make one character. -/
theorem translate_unicode {run : Nat} (even : run % 2 = 0) {a b c d x : Char}
    (digits : hexChar? a b c d = some x) (rest : List Char) :
    translate run ('\\' :: 'u' :: a :: b :: c :: d :: rest) = (translate 0 rest).map (x :: ·) := by
  rw [translate, if_neg (by decide), if_pos ⟨even, rfl⟩, digits]
  rfl

/-- Only the parity of the number of backslashes in front matters. -/
theorem translate_congr {run run' : Nat} (parity : run % 2 = run' % 2) (text : List Char) :
    translate run text = translate run' text := by
  induction text generalizing run run' with
  | nil => rfl
  | cons c rest ih =>
      have longer : translate (run + 1) rest = translate (run' + 1) rest := ih (by omega)
      unfold translate
      rw [parity, longer]

theorem translate_even {run : Nat} (even : run % 2 = 0) (text : List Char) :
    translate run text = translate 0 text := translate_congr even text

/-- Text without backslashes is passed on as it is. -/
theorem translate_plain {text : List Char} (plain : '\\' ∉ text) (run : Nat) :
    translate run text = some text := by
  induction text generalizing run with
  | nil => rfl
  | cons c rest ih =>
      rw [List.mem_cons, not_or] at plain
      rw [translate_cons_of_ne (Ne.symm plain.1), ih plain.2]
      rfl

/-! ## String literals -/

theorem hexValue?_hexDigit : ∀ n < 16, hexValue? (hexDigit n) = some n := by
  decide

/-- Four digits are enough for any control character. -/
theorem hexChar?_hexDigits {c : Char} (small : c.toNat < 0x100) :
    ∃ h₁ h₂ h₃ h₄, hexDigits 4 c.toNat = [h₁, h₂, h₃, h₄] ∧ hexChar? h₁ h₂ h₃ h₄ = some c := by
  refine ⟨_, _, _, _, rfl, ?_⟩
  have value : ((c.toNat / 16 / 16 / 16 % 16 * 16 + c.toNat / 16 / 16 % 16) * 16
      + c.toNat / 16 % 16) * 16 + c.toNat % 16 = c.toNat := by
    omega
  have digit : ∀ n, hexValue? (hexDigit (n % 16)) = some (n % 16) := fun n =>
    hexValue?_hexDigit _ (Nat.mod_lt _ (by decide))
  unfold hexChar?
  simp only [digit, Option.bind_eq_bind, Option.bind_some, value, Char.ofNat_toNat]
  exact if_pos c.valid

/-- What a character of a literal is after the first phase: itself, unless it has a short
escape. -/
def halfway (c : Char) : List Char :=
  match Quoted.shortEscape? c with
  | some letter => ['\\', letter]
  | none => [c]

/-- A character with a letter of its own is read back from the letter. -/
theorem shortEscape?_eq_some {c letter : Char} (h : Quoted.shortEscape? c = some letter) :
    unescape? letter = some c ∧ letter ≠ 'u' ∧ Quoted.isControl letter = false := by
  unfold Quoted.shortEscape? at h
  split_ifs at h with h₁ h₂ h₃ h₄ h₅ h₆ h₇
  all_goals
    cases h
    rw [‹c = _›]
    decide

/-- The characters that would end a literal, or not be allowed in it, all have one. -/
theorem shortEscape?_eq_none {c : Char} (h : Quoted.shortEscape? c = none) :
    c ≠ '"' ∧ c ≠ '\\' ∧ c ≠ '\n' ∧ c ≠ '\r' := by
  refine ⟨?_, ?_, ?_, ?_⟩
  all_goals
    rintro rfl
    cases h

/-- The first phase, one character at a time. The number of backslashes in front is even before
and after. -/
theorem translate_escape {run : Nat} (even : run % 2 = 0) (c : Char) (tail : List Char) :
    translate run (Quoted.escape c ++ tail) = (translate 0 tail).map (halfway c ++ ·) := by
  unfold Quoted.escape halfway
  cases short : Quoted.shortEscape? c with
  | some letter =>
      obtain ⟨-, other, -⟩ := shortEscape?_eq_some short
      have alone : ¬(run % 2 = 0 ∧ (letter :: tail).head? = some 'u') := by
        rintro ⟨-, same⟩
        exact other (Option.some.inj same)
      -- The letter may be a backslash, which is then the second of two.
      have second :
          translate (run + 1) (letter :: tail) = (translate 0 tail).map (letter :: ·) := by
        by_cases backslash : letter = '\\'
        · rw [backslash, translate_backslash (by omega), translate_even (by omega)]
        · exact translate_cons_of_ne backslash _ _
      simp only [List.cons_append, List.nil_append]
      rw [translate_backslash alone, second, Option.map_map]
      rfl
  | none =>
      dsimp only
      by_cases control : Quoted.isControl c = true
      · have small : c.toNat < 0x100 := by
          simp only [Quoted.isControl, Bool.or_eq_true, Bool.and_eq_true,
            decide_eq_true_eq] at control
          omega
        obtain ⟨h₁, h₂, h₃, h₄, digits, char⟩ := hexChar?_hexDigits small
        rw [if_pos control, digits]
        exact translate_unicode even char tail
      · rw [if_neg control]
        exact translate_cons_of_ne (shortEscape?_eq_none short).2.1 run tail

/-- The first phase undoes the escapes by number, and leaves those by letter. -/
theorem translate_flatMap_escape {run : Nat} (even : run % 2 = 0) (text tail : List Char) :
    translate run (text.flatMap Quoted.escape ++ tail)
      = (translate 0 tail).map (text.flatMap halfway ++ ·) := by
  induction text generalizing run with
  | nil => simp [translate_even even]
  | cons c text ih =>
      rw [List.flatMap_cons, List.append_assoc, translate_escape even, ih rfl, Option.map_map]
      simp [Function.comp_def]

/-- The second phase. -/
theorem readBody_halfway (c : Char) (tail : List Char) :
    readBody (halfway c ++ tail) = (readBody tail).map (Prod.map (c :: ·) id) := by
  unfold halfway
  cases short : Quoted.shortEscape? c with
  | some letter =>
      obtain ⟨char, -, -⟩ := shortEscape?_eq_some short
      simp only [List.cons_append, List.nil_append]
      rw [readBody, if_neg (by decide), if_pos rfl, char]
      rfl
  | none =>
      obtain ⟨quote, backslash, newline, carriage⟩ := shortEscape?_eq_none short
      simp only [List.cons_append, List.nil_append]
      conv => lhs; unfold readBody
      rw [if_neg quote, if_neg backslash, if_neg (not_or.mpr ⟨newline, carriage⟩)]

/-- The second phase undoes those by letter, up to the quote. -/
theorem readBody_flatMap_halfway (text tail : List Char) :
    readBody (text.flatMap halfway ++ '"' :: tail) = some (text, tail) := by
  induction text with
  | nil =>
      rw [List.flatMap_nil, List.nil_append]
      unfold readBody
      rw [if_pos rfl]
  | cons c text ih =>
      rw [List.flatMap_cons, List.append_assoc, readBody_halfway, ih]
      rfl

theorem literal_toList (s : String) :
    (Quoted.literal s).toList = '"' :: (s.toList.flatMap Quoted.escape ++ ['"']) := by
  rw [Quoted.literal, String.toList_ofList]

/-- The quotes around a literal are left where they are. -/
theorem translate_literal (s : String) :
    translate 0 (Quoted.literal s).toList = some ('"' :: (s.toList.flatMap halfway ++ ['"'])) := by
  rw [literal_toList, translate_cons_of_ne (by decide), translate_flatMap_escape rfl]
  rfl

theorem isControl_hexDigit : ∀ n < 16, Quoted.isControl (hexDigit n) = false := by
  decide

theorem isControl_of_mem_hexDigits {width n : Nat} {c : Char} (mem : c ∈ hexDigits width n) :
    Quoted.isControl c = false := by
  induction width generalizing n with
  | zero => cases mem
  | succ width ih =>
      rcases List.mem_append.mp mem with front | last
      · exact ih front
      · rw [List.mem_singleton.mp last]
        exact isControl_hexDigit _ (Nat.mod_lt _ (by decide))

/-- No character of an escape is a control character. -/
theorem isControl_of_mem_escape {c x : Char} (mem : x ∈ Quoted.escape c) :
    Quoted.isControl x = false := by
  unfold Quoted.escape at mem
  -- An escape is a letter behind a backslash, a number behind `\u`, or the character itself, which
  -- is then no control character.
  cases short : Quoted.shortEscape? c with
  | some letter =>
      rw [short] at mem
      rcases List.mem_cons.mp mem with rfl | mem
      · rfl
      · rw [List.mem_singleton.mp mem]
        exact (shortEscape?_eq_some short).2.2
  | none =>
      simp only [short] at mem
      split at mem
      · rcases List.mem_cons.mp mem with rfl | mem
        · rfl
        · rcases List.mem_cons.mp mem with rfl | mem
          · rfl
          · exact isControl_of_mem_hexDigits mem
      · rw [List.mem_singleton.mp mem]
        exact Bool.eq_false_iff.mpr ‹_›

/-- No control character stands in a literal as it is. -/
theorem isControl_of_mem_literal {s : String} {x : Char} (mem : x ∈ (Quoted.literal s).toList) :
    Quoted.isControl x = false := by
  rw [literal_toList] at mem
  rcases List.mem_cons.mp mem with rfl | mem
  · rfl
  · rcases List.mem_append.mp mem with mem | mem
    · obtain ⟨c, -, mem⟩ := List.mem_flatMap.mp mem
      exact isControl_of_mem_escape mem
    · rw [List.mem_singleton.mp mem]
      rfl

/-! ## Numbers -/

/-- A decimal numeral: digits, and none of them a zero in front of others, which would make the
numeral octal. -/
def numeral? (text : List Char) : Option Nat :=
  if text ≠ [] ∧ text.all Char.isDigit ∧ (text.head? = some '0' → text = ['0']) then
    some (Nat.ofDigitChars 10 text 0)
  else none

/-- A numeral of a type that goes up to below `bound`, with or without a minus in front. The
least number has a magnitude of just `bound`. -/
def signed? (bound : Nat) (text : List Char) : Option Int :=
  if text.head? = some '-' then
    (numeral? text.tail).bind fun n => if n ≤ bound then some (-(n : Int)) else none
  else (numeral? text).bind fun n => if n < bound then some (n : Int) else none

/-- Only zero begins with the digit 0. -/
theorem toDigits_eq_of_head? {n : Nat} (zero : (Nat.toDigits 10 n).head? = some '0') :
    Nat.toDigits 10 n = ['0'] := by
  induction n using Nat.strongRecOn with
  | ind n ih =>
      by_cases small : n < 10
      · rw [Nat.toDigits_of_lt_base small] at zero ⊢
        rw [Option.some.inj zero]
      · exfalso
        rw [Nat.toDigits_of_base_le (by decide) (by omega)] at zero
        have digits : Nat.toDigits 10 (n / 10) ≠ [] := Nat.toDigits_ne_nil
        obtain ⟨d, rest, split⟩ := List.exists_cons_of_ne_nil digits
        -- The leading digit is that of the tenth, which would be 0 by induction, and so the number
        -- below ten.
        have front : Nat.toDigits 10 (n / 10) = ['0'] := by
          refine ih (n / 10) (by omega) ?_
          rw [split] at zero ⊢
          exact zero
        have value : Nat.ofDigitChars 10 (Nat.toDigits 10 (n / 10)) 0 = 0 := by
          rw [front]
          rfl
        rw [Nat.ofDigitChars_ten_toDigits] at value
        omega

theorem isDigit_of_mem_toDigits {n : Nat} {c : Char} (mem : c ∈ Nat.toDigits 10 n) :
    c.isDigit = true :=
  Nat.isDigit_of_mem_toDigits (by decide) (by decide) mem

/-- A number is read back from its digits. -/
theorem numeral?_toDigits (n : Nat) : numeral? (Nat.toDigits 10 n) = some n := by
  have digits : (Nat.toDigits 10 n).all Char.isDigit = true :=
    List.all_eq_true.mpr fun c mem => isDigit_of_mem_toDigits mem
  rw [numeral?, if_pos ⟨Nat.toDigits_ne_nil, digits, toDigits_eq_of_head?⟩,
    Nat.ofDigitChars_ten_toDigits]

/-- An integer is written with a minus if it is negative, and else by its digits alone. -/
theorem toList_toString (n : Int) :
    (toString n).toList =
      if n < 0 then '-' :: Nat.toDigits 10 n.natAbs else Nat.toDigits 10 n.natAbs := by
  rw [Int.toString_eq_repr]
  cases n with
  | ofNat n =>
      have positive : ¬Int.ofNat n < 0 := Int.not_lt.mpr (Int.natCast_nonneg n)
      rw [if_neg positive]
      exact Nat.toList_repr
  | negSucc n =>
      rw [if_pos (Int.negSucc_lt_zero n), Int.repr, String.toList_append, Nat.toList_repr]
      rfl

theorem mem_toString {n : Int} {c : Char} (mem : c ∈ (toString n).toList) :
    c = '-' ∨ c.isDigit = true := by
  rw [toList_toString] at mem
  split at mem
  · exact (List.mem_cons.mp mem).imp_right isDigit_of_mem_toDigits
  · exact .inr (isDigit_of_mem_toDigits mem)

/-- An integer within the bounds is read back. -/
theorem signed?_toString {n : Int} {bound : Nat} (low : -(bound : Int) ≤ n) (high : n < bound) :
    signed? bound (toString n).toList = some n := by
  rw [toList_toString, signed?]
  by_cases negative : n < 0
  · rw [if_pos negative, List.head?_cons, if_pos rfl, List.tail_cons, numeral?_toDigits,
      Option.bind_some, if_pos (by omega)]
    congr 1
    omega
  · have unsigned : (Nat.toDigits 10 n.natAbs).head? ≠ some '-' := by
      intro minus
      exact absurd (isDigit_of_mem_toDigits (List.mem_of_head? minus)) (by decide)
    rw [if_neg negative, if_neg unsigned, numeral?_toDigits, Option.bind_some, if_pos (by omega)]
    congr 1
    omega

/-- What is neither a digit nor a minus is in no number. -/
theorem signed?_eq_none {text : List Char} {c : Char} (mem : c ∈ text)
    (digit : c.isDigit = false) (minus : c ≠ '-') (bound : Nat) : signed? bound text = none := by
  have refused : ∀ {t : List Char}, c ∈ t → numeral? t = none := by
    intro t mem
    refine if_neg ?_
    rintro ⟨-, digits, -⟩
    rw [List.all_eq_true.mp digits c mem] at digit
    cases digit
  unfold signed?
  split
  · rename_i head
    obtain ⟨rest, rfl⟩ := List.head?_eq_some_iff.mp head
    rw [List.tail_cons, refused ((List.mem_cons.mp mem).resolve_left minus)]
    rfl
  · rw [refused mem]
    rfl

/-! ## Tokens -/

/-- A value that has a literal of its own. -/
inductive Value where
  | int (value : Int32)
  | long (value : Int64)
  | text (value : String)
deriving DecidableEq

/-- A decimal literal, of type `long` if there is an `L` behind it. -/
def number? (text : List Char) : Option Value :=
  if text.getLast? = some 'L' then
    (signed? 0x8000000000000000 text.dropLast).map fun n => .long (Int64.ofInt n)
  else (signed? 0x80000000 text).map fun n => .int (Int32.ofInt n)

/-- A literal without Unicode escapes. Nothing may be left over behind the last quote. -/
def token? (text : List Char) : Option Value :=
  if text.head? = some '"' then
    (readBody text.tail).bind fun (chars, rest) =>
      if rest.isEmpty then some (.text (String.ofList chars)) else none
  else number? text

/-- The value of a literal as it stands in a source file. -/
def read? (source : String) : Option Value :=
  (translate 0 source.toList).bind token?

/-- A literal of a text is read as that text. -/
theorem read?_literal (s : String) : read? (Quoted.literal s) = some (.text s) := by
  rw [read?, translate_literal, Option.bind_some, token?, List.head?_cons, if_pos rfl,
    List.tail_cons, readBody_flatMap_halfway, Option.bind_some]
  exact congrArg (fun t => some (Value.text t)) String.ofList_toList

/-- The characters of the literals of numbers. -/
def plain (c : Char) : Bool :=
  c.isAlphanum || c == '.' || c == '-' || c == '_'

/-- Plain text is a number or nothing. -/
theorem read?_of_plain {s : String} (h : s.toList.all plain = true) :
    read? s = number? s.toList := by
  have absent : ∀ {c : Char}, plain c = false → c ∉ s.toList := by
    intro c other mem
    rw [List.all_eq_true.mp h c mem] at other
    cases other
  have unquoted : s.toList.head? ≠ some '"' := fun quote =>
    absent (by decide) (List.mem_of_head? quote)
  rw [read?, translate_plain (absent (by decide)), Option.bind_some, token?, if_neg unquoted]

theorem plain_of_isDigit {c : Char} (digit : c.isDigit = true) : plain c = true := by
  simp [plain, Char.isAlphanum, digit]

theorem plain_of_mem_toString {n : Int} {c : Char} (mem : c ∈ (toString n).toList) :
    plain c = true := by
  rcases mem_toString mem with rfl | digit
  · rfl
  · exact plain_of_isDigit digit

theorem read?_int (value : Int32) : read? (Literal.int value) = some (.int value) := by
  have chars : (Literal.int value).toList.all plain = true :=
    List.all_eq_true.mpr fun c mem => plain_of_mem_toString mem
  have unmarked : (Literal.int value).toList.getLast? ≠ some 'L' := by
    intro last
    rcases mem_toString (List.mem_of_getLast? last) with minus | digit
    · exact absurd minus (by decide)
    · exact absurd digit (by decide)
  rw [read?_of_plain chars, number?, if_neg unmarked, Literal.int,
    signed?_toString value.le_toInt value.toInt_lt, Option.map_some, Int32.ofInt_toInt]

theorem read?_long (value : Int64) : read? (Literal.long value) = some (.long value) := by
  have spelled : (Literal.long value).toList = (toString value.toInt).toList ++ ['L'] := by
    rw [Literal.long, String.toList_append]
    rfl
  have chars : (Literal.long value).toList.all plain = true := by
    rw [spelled, List.all_append, Bool.and_eq_true]
    exact ⟨List.all_eq_true.mpr fun c mem => plain_of_mem_toString mem, rfl⟩
  rw [read?_of_plain chars, spelled, number?, if_pos List.getLast?_concat, List.dropLast_concat,
    signed?_toString value.le_toInt value.toInt_lt, Option.map_some, Int64.ofInt_toInt]

/-! ## Floating point -/

/-- A decimal has no characters but digits, a point, a minus and the mark of an exponent. -/
theorem plain_of_mem_text {layout : Layout} {d : Decimal} {c : Char} (mem : c ∈ layout.text d) :
    plain c = true := by
  have digit : c ∈ Nat.toDigits 10 d.coefficient → plain c = true := fun mem =>
    plain_of_isDigit (isDigit_of_mem_toDigits mem)
  have zeros : ∀ {k : Nat}, c ∈ List.replicate k '0' → plain c = true := by
    intro k mem
    rw [List.eq_of_mem_replicate mem]
    rfl
  -- There are five ways to write a decimal; each is put together from digits, zeros, the point and
  -- an exponent.
  unfold Layout.text at mem
  dsimp only at mem
  split_ifs at mem
  all_goals
    simp only [List.mem_append, List.mem_cons, List.not_mem_nil, or_false] at mem
  · rcases mem with (mem | mem) | rfl | rfl
    · exact digit mem
    · exact zeros mem
    · rfl
    · rfl
  · rcases mem with mem | rfl | mem
    · exact digit (List.mem_of_mem_take mem)
    · rfl
    · exact digit (List.mem_of_mem_drop mem)
  · rcases mem with rfl | rfl | mem | mem
    · rfl
    · rfl
    · exact zeros mem
    · exact digit mem
  · rcases mem with mem | rfl | mem
    · exact digit (List.mem_of_mem_take mem)
    · rfl
    · exact plain_of_mem_toString mem
  · rcases mem with (mem | rfl | mem) | rfl | mem
    · exact digit (List.mem_of_mem_take mem)
    · rfl
    · exact digit (List.mem_of_mem_drop mem)
    · rfl
    · exact plain_of_mem_toString mem

/-- An ending that no whole number has: its last character is neither a digit nor an `L`. -/
def foreignEnding (text : List Char) : Bool :=
  text.all plain && text.getLast?.any fun c => !c.isDigit && c != '-' && c != 'L'

/-- A text with a foreign ending is neither a text literal nor an integer. -/
theorem read?_append_eq_none {text ending : String} (chars : text.toList.all plain = true)
    (foreign : foreignEnding ending.toList = true) : read? (text ++ ending) = none := by
  rw [foreignEnding, Bool.and_eq_true, Option.any_eq_true] at foreign
  obtain ⟨endingChars, last, found, kind⟩ := foreign
  simp only [Bool.and_eq_true, Bool.not_eq_true', bne_iff_ne] at kind
  obtain ⟨⟨digit, minus⟩, unmarked⟩ := kind
  have whole : (text ++ ending).toList.all plain = true := by
    rw [String.toList_append, List.all_append, chars, endingChars]
    rfl
  have final : (text ++ ending).toList.getLast? = some last := by
    rw [String.toList_append, List.getLast?_append, found]
    rfl
  rw [read?_of_plain whole, number?, final,
    if_neg fun same => unmarked (Option.some.inj same),
    signed?_eq_none (List.mem_of_getLast? final) digit minus]
  rfl

/-- So no floating-point literal is read as a text or an integer. -/
theorem read?_floating (format : BinaryFormat) (boxed suffix : String) (bits : Nat)
    (chars : boxed.toList.all plain = true) (foreign : foreignEnding suffix.toList = true) :
    read? (Literal.floating format boxed suffix bits) = none := by
  unfold Literal.floating
  cases format.read bits with
  | nan => exact read?_append_eq_none chars rfl
  | infinite negative =>
      cases negative with
      | true => exact read?_append_eq_none chars rfl
      | false => exact read?_append_eq_none chars rfl
  | finite negative units gap narrow =>
      refine read?_append_eq_none ?_ foreign
      rw [String.toList_append, List.all_append, Bool.and_eq_true]
      constructor
      · cases negative <;> rfl
      · split
        · rfl
        · rw [String.toList_ofList]
          exact List.all_eq_true.mpr fun c mem => plain_of_mem_text mem

end JavaLiteral

open JavaLiteral

namespace Pool

/-- The value of a constant, if it is one that a literal is read back to. -/
def value? (p : Pool) (index : UInt16) : Option Value :=
  match p.get? index with
  | some (.integer value) => some (.int value)
  | some (.long value) => some (.long value)
  | some (.stringRef text) => (p.utf8 text).toOption.map .text
  | _ => none

/-- Reading the literal of a constant gives its value. For floating point constants both sides
are nothing. -/
theorem read?_of_literal {p : Pool} {index : UInt16} {text : String}
    (h : p.literal index = .ok text) : read? text = p.value? index := by
  unfold literal at h
  -- By the constant at the index; what has no literal is no case.
  split at h <;> rename_i entry
  · cases h
    rw [value?, entry]
    exact read?_int _
  · cases h
    rw [value?, entry]
    exact read?_long _
  · cases h
    rw [value?, entry]
    exact read?_floating .single "Float" "F" _ rfl rfl
  · cases h
    rw [value?, entry]
    exact read?_floating .double "Double" "D" _ rfl rfl
  · rename_i name
    cases found : p.utf8 name with
    | error e =>
        rw [found] at h
        cases h
    | ok s =>
        rw [found] at h
        cases h
        simp only [value?, entry, found]
        exact read?_literal s
  · cases h

/-- What has a value has a literal. -/
theorem exists_literal_eq_ok {p : Pool} {index : UInt16} {v : Value}
    (h : p.value? index = some v) : ∃ text, p.literal index = .ok text := by
  unfold value? at h
  split at h <;> rename_i entry
  · exact ⟨_, by rw [literal, entry]⟩
  · exact ⟨_, by rw [literal, entry]⟩
  · rename_i name
    cases found : p.utf8 name with
    | error e =>
        rw [found] at h
        cases h
    | ok s =>
        refine ⟨Quoted.literal s, ?_⟩
        simp only [literal, entry, found]
        rfl
  · cases h

end Pool

/-- **Literals read back.** Every constant of type `int` or `long` and every string has a
literal, which Java reads back as just this constant, and which is the literal of no other value
in any pool. The literal of a string is complete: behind the first quote that is not escaped,
once the Unicode escapes are translated, there is nothing, and in front of it there is the string.
It holds no control character as it is. -/
theorem literals_read_back :
    (∀ (p : Pool) (index : UInt16) (v : Value), p.value? index = some v →
      ∃ text, p.literal index = .ok text ∧ read? text = some v ∧
        ∀ (q : Pool) (other : UInt16), q.literal other = .ok text → q.value? other = some v) ∧
    ∀ s : String,
      (∃ body, translate 0 (Quoted.literal s).toList = some ('"' :: body) ∧
        readBody body = some (s.toList, [])) ∧
      ∀ c ∈ (Quoted.literal s).toList,
        0x20 ≤ c.toNat ∧ ¬(0x7F ≤ c.toNat ∧ c.toNat < 0xA0) := by
  refine ⟨?_, fun s => ⟨⟨_, translate_literal s, readBody_flatMap_halfway _ _⟩, ?_⟩⟩
  · intro p index v has
    -- A value has a text, and the text is read back as the value, wherever it comes from.
    obtain ⟨text, written⟩ := Pool.exists_literal_eq_ok has
    have reads : read? text = some v := (Pool.read?_of_literal written).trans has
    refine ⟨text, written, reads, ?_⟩
    intro q other same
    rw [← Pool.read?_of_literal same, reads]
  · intro c mem
    have visible := isControl_of_mem_literal mem
    simp only [Quoted.isControl, Bool.or_eq_false_iff, Bool.and_eq_false_iff,
      decide_eq_false_iff_not] at visible
    omega

/-- A backslash in front of a control character, and then the text of a Unicode escape. -/
def awkwardText : String := "\\\x00\\u0022\"\\\\"

theorem literals_read_back_awkward :
    let pool := ((Pool.empty.pushUtf8 awkwardText).2.push (.stringRef 1)).2
    let text := "\"\\\\\\u0000\\\\u0022\\\"\\\\\\\\\""
    pool.value? 2 = some (.text awkwardText) ∧ pool.literal 2 = .ok text ∧
      read? text = some (.text awkwardText) := by
  intro pool text
  have value : pool.value? 2 = some (.text awkwardText) := rfl
  have spelled : pool.literal 2 = .ok text := rfl
  obtain ⟨written, found, reads, -⟩ := literals_read_back.1 pool 2 _ value
  have same : text = written := Except.ok.inj (spelled.symm.trans found)
  rw [same]
  exact ⟨value, found, reads⟩

end ClassOutline
