import ClassOutline.Pool.Lookup

/-!
What a constant pool answers, and when it has no answer.

The answers are stated by the constants that they are made of. A text is a Utf8 constant
(`utf8_eq_ok_iff`). The name of a class is the text behind a Class constant, with a dot for
every slash in it (`NamesClass`); in a list of classes index 0 is accepted as well, and is read
as the word for any class (`ListsClass`).

Where a pool has no answer it says so of an index, and that index is at fault: there is no
constant there of the sort that was looked for (`lacks_of_complains`).
-/

set_option autoImplicit false

namespace ClassOutline

/-- A lookup may fail with this error. -/
def Resolver.Complains (r : Resolver) (error : Error) : Prop :=
  ∃ question index, r question index = .error error

/-! ## Texts and classes -/

/-- A name with dots, character by character. -/
theorem eq_dotted_iff {name text : String} : name = dotted text ↔
    name.toList = text.toList.map fun c => if c = '/' then '.' else c := by
  rw [← String.toList_inj, toList_dotted]

namespace Pool

variable {p : Pool} {index : UInt16} {name : String}

/-- A text is what a Utf8 constant holds. -/
theorem utf8_eq_ok_iff {p : Pool} {index : UInt16} {text : String} :
    p.utf8 index = .ok text ↔ p.get? index = some (.utf8 text) := by
  unfold utf8
  split
  next text' found => simp [found]
  next other =>
    constructor
    · intro ok
      cases ok
    · intro found
      exact absurd found (other text)

/-- At the index, which is not 0, there is a class, and the name is the text of it, character by
character but for the slashes, which are dots. -/
def NamesClass (p : Pool) (index : UInt16) (name : String) : Prop :=
  index ≠ 0 ∧ ∃ textIndex text, p.get? index = some (.classRef textIndex) ∧
    p.get? textIndex = some (.utf8 text) ∧
    name.toList = text.toList.map fun c => if c = '/' then '.' else c

/-- What an index in a list of classes is read as: the name of a class, or for index 0 the word
for any class. -/
def ListsClass (p : Pool) (index : UInt16) (name : String) : Prop :=
  index = 0 ∧ name = "any" ∨ p.NamesClass index name

/-- Away from index 0 the answer to the question for a class is the name of one. -/
theorem className_eq_ok_iff_namesClass (other : index ≠ 0) :
    p.className index = .ok name ↔ p.NamesClass index name := by
  rw [className, if_neg other]
  constructor
  · -- An answer means that there was a class, and a text behind it.
    intro answer
    split at answer
    next textIndex found =>
      cases text : p.utf8 textIndex with
      | error error =>
          rw [text] at answer
          cases answer
      | ok spelled =>
          rw [text] at answer
          cases answer
          exact ⟨other, textIndex, spelled, found, utf8_eq_ok_iff.mp text, toList_dotted spelled⟩
    next => cases answer
  · rintro ⟨-, textIndex, text, found, spelled, characters⟩
    simp only [found, utf8_eq_ok_iff.mpr spelled]
    rw [eq_dotted_iff.mpr characters]
    rfl

/-- The answer to the question for a class is what a list of classes has. -/
theorem className_eq_ok_iff : p.className index = .ok name ↔ p.ListsClass index name := by
  by_cases zero : index = 0
  · rw [className, if_pos zero]
    constructor
    · intro answer
      cases answer
      exact .inl ⟨zero, rfl⟩
    · rintro (⟨-, rfl⟩ | ⟨other, -⟩)
      · rfl
      · exact absurd zero other
  · rw [className_eq_ok_iff_namesClass zero, ListsClass]
    exact ⟨.inr, fun lists => lists.resolve_left fun any => zero any.1⟩

end Pool

/-! ## Lookups without an answer -/

/-- Is a constant of the sort that a lookup is after? -/
def Expected.accepts : Expected → Constant → Bool
  | .utf8, .utf8 _ | .classRef, .classRef _ => true
  | .literal, .integer _ | .literal, .float _ | .literal, .long _ | .literal, .double _
  | .literal, .stringRef _ => true
  | _, _ => false

namespace Pool

variable {pool : Pool} {index : UInt16} {error : Error}

/-- The slot at the index is missing or empty, or holds a constant of another sort. -/
def Lacks (pool : Pool) (index : UInt16) (expected : Expected) : Prop :=
  ∀ k, pool.get? index = some k → expected.accepts k = false

/-- A text is missing where there is no Utf8 constant. -/
theorem utf8_eq_error (answer : pool.utf8 index = .error error) :
    error = .unresolved index .utf8 ∧ pool.Lacks index .utf8 := by
  unfold utf8 at answer
  split at answer
  · cases answer
  · rename_i other
    cases answer
    refine ⟨rfl, ?_⟩
    intro k found
    cases k with
    | utf8 text => exact absurd found (other text)
    | _ => rfl

/-- Class names and string literals are texts that are put into another form. -/
theorem map_utf8_eq_error {form : String → String}
    (answer : (pool.utf8 index).map form = .error error) :
    error = .unresolved index .utf8 ∧ pool.Lacks index .utf8 := by
  cases text : pool.utf8 index with
  | ok text' =>
      rw [text] at answer
      cases answer
  | error error' =>
      rw [text] at answer
      cases answer
      exact utf8_eq_error text

/-- What a pool has no answer for is unresolved, and the index that is blamed is at fault:
that of the text behind a class or a string, if these are there. -/
theorem lacks_of_complains (complains : pool.resolver.Complains error) :
    ∃ index expected, error = .unresolved index expected ∧ pool.Lacks index expected := by
  obtain ⟨question, index, answer⟩ := complains
  cases question with
  | utf8 => exact ⟨_, _, utf8_eq_error answer⟩
  | className =>
      change pool.className index = .error error at answer
      unfold className at answer
      split at answer
      · cases answer
      · split at answer
        · exact ⟨_, _, map_utf8_eq_error answer⟩
        · rename_i other
          cases answer
          refine ⟨_, _, rfl, ?_⟩
          intro k found
          cases k with
          | classRef name => exact absurd found (other name)
          | _ => rfl
  | literal =>
      change pool.literal index = .error error at answer
      unfold literal at answer
      split at answer
      -- Numbers have an answer; a string has that of its text.
      case h_5 => exact ⟨_, _, map_utf8_eq_error answer⟩
      all_goals cases answer
      rename_i noInt noLong noFloat noDouble noString
      refine ⟨_, _, rfl, ?_⟩
      intro k found
      cases k with
      | integer value => exact absurd found (noInt value)
      | long value => exact absurd found (noLong value)
      | float bits => exact absurd found (noFloat bits)
      | double bits => exact absurd found (noDouble bits)
      | stringRef text => exact absurd found (noString text)
      | _ => rfl

end Pool

end ClassOutline
