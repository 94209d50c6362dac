import ClassOutline.Descriptor

/-!
The readers of descriptors accept the grammar of descriptors, and nothing else.

`spelling` writes a descriptor down, and for most descriptors a reader takes exactly that
back off the front of a text. The exceptions are class names that a descriptor cannot
hold: an empty one, which is refused, and one with a semicolon, which would end there.
Descriptors without such names are `Spellable`, and for these the two directions meet in
one equivalence per reader,

  `read text = .ok (d, rest) ↔ text = d.spelling ++ rest ∧ d.Spellable`.

From left to right it says that a reader accepts no other text and loses no character;
from right to left that it accepts every descriptor whatever follows, so a name may hold
parentheses, brackets or the letters of other types. Since a reader has one answer, no text
begins with the spellings of two descriptors.
-/

set_option autoImplicit false

namespace ClassOutline

/-! ## Primitive types -/

namespace BaseType

/-- The letter of a base type is known as that of the type. -/
theorem ofLetter?_letter (type : BaseType) : ofLetter? type.letter = some type := by
  cases type <;> rfl

/-- No other letter is. -/
theorem letter_of_ofLetter? {c : Char} {type : BaseType} (h : ofLetter? c = some type) :
    type.letter = c := by
  have found := List.find?_some h
  exact eq_of_beq found

end BaseType

/-! ## Class names -/

/-- A name that a descriptor can hold: there is one, and nothing in it ends it. -/
def IsClassName (name : String) : Prop := name ≠ "" ∧ ';' ∉ name.toList

instance (name : String) : Decidable (IsClassName name) :=
  inferInstanceAs (Decidable (name ≠ "" ∧ ';' ∉ name.toList))

/-- A run of other characters is ended by a semicolon, if by anything. -/
theorem eq_semicolon_of_dropWhile {text rest : List Char} {c : Char}
    (h : text.dropWhile (· != ';') = c :: rest) : c = ';' := by
  have stop := List.head?_dropWhile_not (fun x : Char => x != ';') text
  rw [h, List.head?_cons] at stop
  simpa using stop

/-- A name is read up to the first semicolon, if there is anything in front of it. -/
theorem FieldType.readClassName_eq_ok_iff (text rest : List Char) (name : String) :
    readClassName text = .ok (name, rest) ↔
      text = name.toList ++ ';' :: rest ∧ IsClassName name := by
  constructor
  · intro h
    have whole := List.takeWhile_append_dropWhile (p := (· != ';')) (l := text)
    unfold readClassName at h
    dsimp only at h
    split at h
    · cases h
    · rename_i c tail found
      split at h
      · cases h
      · rename_i nonempty
        cases h
        rw [found, eq_semicolon_of_dropWhile found] at whole
        refine ⟨?_, ?_, ?_⟩
        · rw [String.toList_ofList, whole]
        · intro empty
          apply nonempty
          rw [List.isEmpty_iff, ← String.toList_ofList (l := text.takeWhile _), empty]
          rfl
        · rw [String.toList_ofList]
          intro mem
          have passed := List.all_eq_true.mp (List.all_takeWhile (l := text)) ';' mem
          simp at passed
  · rintro ⟨rfl, nonempty, plain⟩
    -- The scan passes over the whole name, and stops at the semicolon behind it.
    have passes : ∀ c ∈ name.toList, (c != ';') = true := by
      intro c mem
      rw [bne_iff_ne]
      rintro rfl
      exact plain mem
    have front : (name.toList ++ ';' :: rest).takeWhile (· != ';') = name.toList := by
      rw [List.takeWhile_append_of_pos passes]
      simp
    have back : (name.toList ++ ';' :: rest).dropWhile (· != ';') = ';' :: rest := by
      rw [List.dropWhile_append_of_pos passes]
      simp
    have named : name.toList.isEmpty = false := by
      rw [List.isEmpty_eq_false_iff]
      intro empty
      exact nonempty (String.toList_eq_nil_iff.mp empty)
    unfold readClassName
    rw [front, back]
    dsimp only
    rw [named, String.ofList_toList]
    rfl

/-! ## Field types -/

namespace FieldType

/-- Every class name in a type is one that a descriptor can hold. -/
def Spellable : FieldType → Prop
  | base _ => True
  | object name => IsClassName name
  | array element => element.Spellable

instance decidableSpellable : (type : FieldType) → Decidable type.Spellable
  | base _ => inferInstanceAs (Decidable True)
  | object name => inferInstanceAs (Decidable (IsClassName name))
  | array element => decidableSpellable element

/-- What is read was spelled, and stands at the front. -/
theorem eq_spelling_of_read {text rest : List Char} {type : FieldType}
    (h : read text = .ok (type, rest)) : text = type.spelling ++ rest ∧ type.Spellable := by
  induction text generalizing type with
  | nil => cases h
  | cons c text ih =>
      rw [read] at h
      -- The first character decides: a letter of its own, a bracket in front of the elements, or an
      -- `L` in front of a name.
      cases letter : BaseType.ofLetter? c with
      | some primitive =>
          rw [letter] at h
          cases h
          rw [← BaseType.letter_of_ofLetter? letter]
          exact ⟨rfl, trivial⟩
      | none =>
          rw [letter] at h
          dsimp only at h
          by_cases bracket : c = '['
          · rw [if_pos bracket] at h
            cases inner : read text with
            | error error =>
                rw [inner] at h
                cases h
            | ok result =>
                obtain ⟨element, tail⟩ := result
                rw [inner] at h
                cases h
                obtain ⟨spelled, spellable⟩ := ih inner
                rw [bracket, spelled]
                exact ⟨rfl, spellable⟩
          · rw [if_neg bracket] at h
            by_cases object : c = 'L'
            · rw [if_pos object] at h
              cases inner : readClassName text with
              | error error =>
                  rw [inner] at h
                  cases h
              | ok result =>
                  obtain ⟨name, tail⟩ := result
                  rw [inner] at h
                  cases h
                  obtain ⟨spelled, named⟩ := (readClassName_eq_ok_iff text rest name).mp inner
                  rw [object, spelled, spelling, List.cons_append, List.append_assoc,
                    List.singleton_append]
                  exact ⟨rfl, named⟩
            · rw [if_neg object] at h
              cases h

/-- What was spelled is read back, whatever follows. -/
theorem read_spelling {type : FieldType} (spellable : type.Spellable) (rest : List Char) :
    read (type.spelling ++ rest) = .ok (type, rest) := by
  induction type with
  | base type =>
      rw [spelling, List.singleton_append, read, BaseType.ofLetter?_letter]
  | object name =>
      have letter : BaseType.ofLetter? 'L' = none := rfl
      -- The name is spellable, which is to say that the semicolon behind it is the first.
      have named : readClassName (name.toList ++ ';' :: rest) = .ok (name, rest) :=
        (readClassName_eq_ok_iff _ _ _).mpr ⟨rfl, spellable⟩
      rw [spelling, List.cons_append, List.append_assoc, List.singleton_append, read, letter]
      dsimp only
      rw [if_neg (by decide), if_pos rfl, named]
  | array element ih =>
      have letter : BaseType.ofLetter? '[' = none := rfl
      rw [spelling, List.cons_append, read, letter]
      dsimp only
      rw [if_pos rfl, ih spellable]

theorem read_eq_ok_iff (text rest : List Char) (type : FieldType) :
    read text = .ok (type, rest) ↔ text = type.spelling ++ rest ∧ type.Spellable := by
  constructor
  · exact eq_spelling_of_read
  · rintro ⟨rfl, spellable⟩
    exact read_spelling spellable rest

/-- No type begins like the end of the parameters, nor like `void`. -/
theorem spelling_head (type : FieldType) :
    ∃ c tail, type.spelling = c :: tail ∧ c ≠ ')' ∧ c ≠ 'V' := by
  cases type with
  | base type => exact ⟨_, _, rfl, by cases type <;> decide, by cases type <;> decide⟩
  | object name => exact ⟨_, _, rfl, by decide, by decide⟩
  | array element => exact ⟨_, _, rfl, by decide, by decide⟩

end FieldType

/-! ## Methods -/

namespace MethodDescriptor

/-- Every class name in the parameters and the result is one that a descriptor can hold. -/
def Spellable (d : MethodDescriptor) : Prop :=
  (∀ type ∈ d.parameters, type.Spellable) ∧ ∀ type ∈ d.result, type.Spellable

instance (d : MethodDescriptor) : Decidable d.Spellable :=
  inferInstanceAs (Decidable ((∀ type ∈ d.parameters, type.Spellable) ∧
    ∀ type ∈ d.result, type.Spellable))

/-- Types in front of anything do not begin with the parenthesis that closes a list. -/
theorem head?_flatMap_spelling {type : FieldType} (types : List FieldType) (rest : List Char) :
    ((type :: types).flatMap FieldType.spelling ++ rest).head? ≠ some ')' := by
  obtain ⟨c, tail, spelled, other, -⟩ := type.spelling_head
  rw [List.flatMap_cons, spelled, List.cons_append, List.cons_append, List.head?_cons]
  intro same
  exact other (Option.some.inj same)

/-- The parameters are the types in front of the first parenthesis that stands where a type
could begin. -/
theorem readParameters_eq_ok_iff (text : List Char) (before : List FieldType)
    (parameters : List FieldType) (rest : List Char) :
    readParameters text before = .ok (parameters, rest) ↔
      ∃ types : List FieldType, parameters = before.reverse ++ types ∧
        (∀ type ∈ types, type.Spellable) ∧
        text = types.flatMap FieldType.spelling ++ rest ∧ rest.head? = some ')' := by
  induction text, before using readParameters.induct with
  | case1 text before close =>
      rw [readParameters, if_pos close]
      constructor
      · intro h
        cases h
        exact ⟨[], by simp, by simp, rfl, close⟩
      · rintro ⟨types, rfl, -, rfl, -⟩
        -- A type in the list would stand in the place of the parenthesis.
        cases types with
        | nil => simp
        | cons type types => exact absurd close (head?_flatMap_spelling types rest)
  | case2 text before close type tail found ih =>
      rw [readParameters, if_neg close]
      split
      · rename_i type' tail' found'
        rw [found] at found'
        cases found'
        rw [ih]
        obtain ⟨spelled, spellable⟩ := FieldType.eq_spelling_of_read found
        constructor
        · rintro ⟨types, rfl, others, rfl, closed⟩
          refine ⟨type :: types, by simp, ?_, ?_, closed⟩
          · rw [List.forall_mem_cons]
            exact ⟨spellable, others⟩
          · rw [spelled, List.flatMap_cons, List.append_assoc]
        · rintro ⟨types, rfl, all, whole, closed⟩
          cases types with
          | nil =>
              rw [List.flatMap_nil, List.nil_append] at whole
              rw [whole] at close
              exact absurd closed close
          | cons first types =>
              -- The text begins with one type only, the one that was read.
              rw [List.forall_mem_cons] at all
              rw [List.flatMap_cons, List.append_assoc] at whole
              have again := FieldType.read_spelling all.1 (types.flatMap FieldType.spelling ++ rest)
              rw [← whole, found] at again
              cases again
              exact ⟨types, by simp, all.2, rfl, closed⟩
      · rename_i error found'
        rw [found] at found'
        cases found'
  | case3 text before close error found =>
      rw [readParameters, if_neg close]
      split
      · rename_i type tail found'
        rw [found] at found'
        cases found'
      · constructor
        · intro h
          cases h
        · rintro ⟨types, rfl, all, rfl, closed⟩
          cases types with
          | nil => exact absurd closed close
          | cons first types =>
              rw [List.forall_mem_cons] at all
              rw [List.flatMap_cons, List.append_assoc, FieldType.read_spelling all.1] at found
              cases found

/-- The spelling of a result: `V`, or a type. -/
def resultSpelling : Option FieldType → List Char
  | none => ['V']
  | some type => type.spelling

/-- A descriptor is its parameters in parentheses, and its result. -/
theorem spelling_eq (d : MethodDescriptor) :
    d.spelling = '(' :: (d.parameters.flatMap FieldType.spelling
      ++ ')' :: resultSpelling d.result) := by
  obtain ⟨parameters, result⟩ := d
  cases result <;> rfl

/-- A result is read where it is spelled. -/
theorem readResult_eq_ok_iff (text rest : List Char) (result : Option FieldType) :
    readResult text = .ok (result, rest) ↔
      text = resultSpelling result ++ rest ∧ ∀ type ∈ result, type.Spellable := by
  unfold readResult
  split
  · -- `V` begins no type.
    rename_i tail
    cases result with
    | none => simp [resultSpelling, eq_comm]
    | some type =>
        obtain ⟨c, others, spelled, -, other⟩ := type.spelling_head
        simp [resultSpelling, spelled, other.symm]
  · rename_i text' other
    cases result with
    | none =>
        -- Without `V` in front the text does not spell the missing result.
        have nonvoid : text ≠ resultSpelling none ++ rest := other rest
        constructor
        · intro h
          split at h <;> cases h
        · rintro ⟨whole, -⟩
          exact absurd whole nonvoid
    | some type =>
        simp only [Option.mem_some_iff, forall_eq', resultSpelling]
        rw [← FieldType.read_eq_ok_iff]
        cases FieldType.read text with
        | error error => simp
        | ok found =>
            obtain ⟨type', tail⟩ := found
            simp

/-- A descriptor is read where it is spelled, and nowhere else. -/
theorem read_eq_ok_iff (text rest : List Char) (d : MethodDescriptor) :
    read text = .ok (d, rest) ↔ text = d.spelling ++ rest ∧ d.Spellable := by
  rw [spelling_eq]
  constructor
  · intro h
    unfold read at h
    split at h
    · rename_i text
      split at h
      · cases h
      · rename_i parameters tail found
        split at h
        · rename_i result rest' last
          cases h
          -- Parameters and result were read where they are spelled.
          obtain ⟨types, rfl, all, rfl, -⟩ := (readParameters_eq_ok_iff _ _ _ _).mp found
          obtain ⟨rfl, spellable⟩ := (readResult_eq_ok_iff _ _ _).mp last
          refine ⟨?_, all, spellable⟩
          simp
        · cases h
      · cases h
    · cases h
  · rintro ⟨rfl, all, spellable⟩
    have parameters : readParameters (d.parameters.flatMap FieldType.spelling
        ++ ')' :: (resultSpelling d.result ++ rest)) []
          = .ok (d.parameters, ')' :: (resultSpelling d.result ++ rest)) :=
      (readParameters_eq_ok_iff _ _ _ _).mpr ⟨d.parameters, rfl, all, rfl, rfl⟩
    have result : readResult (resultSpelling d.result ++ rest) = .ok (d.result, rest) :=
      (readResult_eq_ok_iff _ _ _).mpr ⟨rfl, spellable⟩
    rw [List.cons_append, List.append_assoc, List.cons_append, read, parameters]
    simp only [result]

end MethodDescriptor

/-! ## Whole texts -/

/-- A text is accepted as a whole if nothing is left of it. -/
theorem DescriptorReader.complete_eq_ok_iff {α : Type} (read : DescriptorReader α) (text : String)
    (x : α) : read.complete text = .ok x ↔ read text.toList = .ok (x, []) := by
  unfold complete
  cases read text.toList with
  | error error => simp
  | ok found =>
      obtain ⟨y, rest⟩ := found
      cases rest <;> simp

/-- **The readers accept exactly the descriptors, and invert their spelling.** Off the front of
any text they read a descriptor if and only if the text begins with its spelling and its
class names can be spelled, and they leave what follows; a whole text is read if and only
if it is such a spelling. -/
theorem descriptors_read_iff_spelled :
    (∀ (text rest : List Char) (type : FieldType),
      FieldType.read text = .ok (type, rest) ↔
        text = type.spelling ++ rest ∧ type.Spellable) ∧
    (∀ (text rest : List Char) (d : MethodDescriptor),
      MethodDescriptor.read text = .ok (d, rest) ↔
        text = d.spelling ++ rest ∧ d.Spellable) ∧
    (∀ (text : String) (type : FieldType),
      DescriptorReader.complete FieldType.read text = .ok type ↔
        text.toList = type.spelling ∧ type.Spellable) ∧
    (∀ (text : String) (d : MethodDescriptor),
      DescriptorReader.complete MethodDescriptor.read text = .ok d ↔
        text.toList = d.spelling ∧ d.Spellable) := by
  refine ⟨FieldType.read_eq_ok_iff, MethodDescriptor.read_eq_ok_iff, ?_, ?_⟩
  · intro text type
    rw [DescriptorReader.complete_eq_ok_iff, FieldType.read_eq_ok_iff, List.append_nil]
  · intro text d
    rw [DescriptorReader.complete_eq_ok_iff, MethodDescriptor.read_eq_ok_iff, List.append_nil]

/-- A name may hold what would elsewhere be structure. -/
example : DescriptorReader.complete MethodDescriptor.read "(L(I)[;[[I)LV;"
    = .ok ⟨[.object "(I)[", .array (.array (.base .int))], some (.object "V")⟩ := by
  cbv

end ClassOutline
