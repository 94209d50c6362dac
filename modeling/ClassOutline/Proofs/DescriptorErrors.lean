import ClassOutline.Proofs.DescriptorGrammar
import Mathlib.Data.List.TakeWhile

/-!
Descriptor errors tell a text that is not finished from one that is wrong.

A reader that refuses a text says whether it came to the end too early, and the answer means
what it says: the text ends too early exactly if it can be completed to a descriptor. For
every text one of three things is the case (`Judged`), and each of them settles what happens
to all texts that go on from it:

* the reader takes a descriptor, and what is added stays behind it;
* the reader finds a wrong character, and finds it whatever is added;
* the reader runs out of characters, and with some more of them it would not.

The readers are built from one another, and the three cases are carried from the inner
reader to the outer one (`Judged.via`); the array recursion and the loop over the parameters
are inductions. The reader of parameters stops in front of the closing parenthesis, so what it
leaves when it is done is not the empty text: this is the parameter `close` of `Judged`.

Only the empty text is told wrongly. As a method descriptor it lacks the opening parenthesis,
which is never reported as an early end.
-/

set_option autoImplicit false

namespace ClassOutline

/-! ## Three cases -/

/-- What a reader makes of a text, and of all texts that go on from it. A reader that is done
leaves `close`. -/
inductive DescriptorReader.Judged {α : Type} (read : DescriptorReader α) (close text : List Char) :
    Prop
  | taken {x : α} {rest : List Char} : read text = .ok (x, rest) →
      (∀ more, read (text ++ more) = .ok (x, rest ++ more)) → Judged read close text
  | wrong {error : DescriptorError} : read text = .error error → error.kind = .invalidInput →
      (∀ more, read (text ++ more) = .error error) → Judged read close text
  | unfinished {error : DescriptorError} (more : List Char) (x : α) : read text = .error error →
      error.kind = .unexpectedEof → read (text ++ more) = .ok (x, close) → Judged read close text

namespace DescriptorReader

variable {α β : Type}

/-- A reader that goes on by another one is judged as that one. -/
theorem Judged.via {inner : DescriptorReader α} {outer : DescriptorReader β}
    {close text whole : List Char} (make : α → β)
    (goesOn : ∀ more, outer (whole ++ more) = (inner (text ++ more)).map (Prod.map make id))
    (h : Judged inner close text) : Judged outer close whole := by
  -- With nothing more behind it.
  have here : outer whole = (inner text).map (Prod.map make id) := by
    have nothing := goesOn []
    rwa [List.append_nil, List.append_nil] at nothing
  cases h with
  | taken now later =>
      refine .taken (by rw [here, now]; rfl) fun more => ?_
      rw [goesOn, later]
      rfl
  | wrong now kind later =>
      refine .wrong (by rw [here, now]; rfl) kind fun more => ?_
      rw [goesOn, later]
      rfl
  | unfinished more x now kind completed =>
      refine .unfinished more (make x) (by rw [here, now]; rfl) kind ?_
      rw [goesOn, completed]
      rfl

end DescriptorReader

theorem map_eq_error_iff {ε α β : Type} {result : Except ε α} {f : α → β} {error : ε} :
    result.map f = .error error ↔ result = .error error := by
  cases result <;> simp [Except.map]

open DescriptorReader

/-! ## Field types -/

namespace FieldType

/-- Without a semicolon a name has no end. -/
theorem readClassName_of_not_mem {text : List Char} (plain : ';' ∉ text) :
    readClassName text = .error .unterminatedClassName := by
  have passed : text.dropWhile (· != ';') = [] := by
    rw [List.dropWhile_eq_nil_iff]
    intro c mem
    rw [bne_iff_ne]
    rintro rfl
    exact plain mem
  unfold readClassName
  rw [passed]

/-- A name is taken, is empty and refused for that, or lacks its semicolon. -/
theorem readClassName_judged (text : List Char) : Judged readClassName [] text := by
  by_cases semicolon : ';' ∈ text
  · obtain ⟨name, rest, rfl, plain⟩ := List.eq_append_cons_of_mem semicolon
    by_cases empty : name = []
    · rw [empty]
      exact .wrong rfl rfl fun _ => rfl
    · have named : IsClassName (String.ofList name) := by
        refine ⟨?_, by rwa [String.toList_ofList]⟩
        intro same
        exact empty (by rw [← String.toList_ofList (l := name), same]; rfl)
      have taken : ∀ rest, readClassName (name ++ ';' :: rest) = .ok (String.ofList name, rest) :=
        fun rest => (readClassName_eq_ok_iff _ _ _).mpr ⟨by rw [String.toList_ofList], named⟩
      refine .taken (taken rest) fun more => ?_
      rw [List.append_assoc, List.cons_append]
      exact taken (rest ++ more)
  · -- One letter more makes sure that there is a name, and the semicolon ends it.
    refine .unfinished ['A', ';'] (String.ofList (text ++ ['A']))
      (readClassName_of_not_mem semicolon) rfl ((readClassName_eq_ok_iff _ _ _).mpr ⟨?_, ?_, ?_⟩)
    · simp
    · intro empty
      have letters := congrArg String.toList empty
      simp at letters
    · simpa using semicolon

/-- What the first character of a type decides. -/
theorem read_cons (c : Char) :
    (∃ type, ∀ text, read (c :: text) = .ok (base type, text)) ∨
    (∀ text, read (c :: text) = (read text).map (Prod.map array id)) ∨
    (∀ text, read (c :: text) = (readClassName text).map (Prod.map object id)) ∨
    ∀ text, read (c :: text) = .error (.invalidType c) := by
  -- The letters of base types are looked up first, and neither `[` nor `L` is one of them.
  cases letter : BaseType.ofLetter? c with
  | some type =>
      refine .inl ⟨type, fun text => ?_⟩
      rw [read, letter]
  | none =>
      refine .inr ?_
      by_cases bracket : c = '['
      · refine .inl fun text => ?_
        simp only [read, letter, if_pos bracket]
        cases read text <;> rfl
      · by_cases object : c = 'L'
        · refine .inr (.inl fun text => ?_)
          simp only [read, letter, if_neg bracket, if_pos object]
          cases readClassName text <;> rfl
        · refine .inr (.inr fun text => ?_)
          simp only [read, letter, if_neg bracket, if_neg object]

/-- A type is judged by its first character, and an array by the type of its elements. -/
theorem read_judged (text : List Char) : Judged read [] text := by
  induction text with
  | nil => exact .unfinished ['I'] (.base .int) rfl rfl rfl
  | cons c text ih =>
      rcases read_cons c with ⟨type, taken⟩ | elements | named | refused
      · exact .taken (taken text) fun more => taken (text ++ more)
      · exact ih.via array fun more => elements (text ++ more)
      · exact (readClassName_judged text).via object fun more => named (text ++ more)
      · exact .wrong (refused text) rfl fun more => refused (text ++ more)

/-- A type that was found is found whatever comes behind the text. -/
theorem read_append {text rest : List Char} {type : FieldType}
    (found : read text = .ok (type, rest)) (more : List Char) :
    read (text ++ more) = .ok (type, rest ++ more) := by
  obtain ⟨rfl, spellable⟩ := (read_eq_ok_iff _ _ _).mp found
  rw [List.append_assoc]
  exact read_spelling spellable (rest ++ more)

/-- No type begins with the parenthesis that ends the parameters. -/
theorem head?_ne_close_of_read {text rest : List Char} {type : FieldType}
    (found : read text = .ok (type, rest)) : text.head? ≠ some ')' := by
  obtain ⟨rfl, -⟩ := (read_eq_ok_iff _ _ _).mp found
  obtain ⟨c, tail, spelled, other, -⟩ := type.spelling_head
  rw [spelled, List.cons_append, List.head?_cons]
  exact fun same => other (Option.some.inj same)

/-- A wrong type is not the empty text. -/
theorem ne_nil_of_wrong {text : List Char} {error : DescriptorError}
    (found : read text = .error error) (kind : error.kind = .invalidInput) :
    text ≠ [] := by
  rintro rfl
  cases found
  cases kind

end FieldType

/-! ## Methods -/

namespace MethodDescriptor

/-- The loop over the parameters: a type is read, and then what follows it. -/
theorem readParameters_of_read {text rest : List Char} {type : FieldType}
    (found : FieldType.read text = .ok (type, rest)) (before : List FieldType) :
    readParameters text before = readParameters rest (type :: before) := by
  rw [readParameters, if_neg (FieldType.head?_ne_close_of_read found)]
  split
  · rename_i found'
    rw [found] at found'
    cases found'
    rfl
  · rename_i found'
    rw [found] at found'
    cases found'

theorem readParameters_of_error {text : List Char} {error : DescriptorError}
    (inside : text.head? ≠ some ')') (found : FieldType.read text = .error error)
    (before : List FieldType) : readParameters text before = .error error := by
  rw [readParameters, if_neg inside]
  split
  · rename_i found'
    rw [found] at found'
    cases found'
  · rename_i found'
    rw [found] at found'
    cases found'
    rfl

theorem readParameters_close (text : List Char) (before : List FieldType) :
    readParameters (')' :: text) before = .ok (before.reverse, ')' :: text) := by
  rw [readParameters, if_pos List.head?_cons]

/-- The parameters are judged by the first type that is not there. -/
theorem readParameters_judged (text : List Char) (before : List FieldType) :
    Judged (readParameters · before) [')'] text := by
  induction text, before using readParameters.induct with
  | case1 text before close =>
      obtain ⟨tail, rfl⟩ := List.head?_eq_some_iff.mp close
      exact .taken (readParameters_close tail before) fun more =>
        readParameters_close (tail ++ more) before
  | case2 text before close type tail found ih =>
      refine ih.via id fun more => ?_
      rw [readParameters_of_read (FieldType.read_append found more)]
      cases readParameters (tail ++ more) (type :: before) <;> rfl
  | case3 text before close error found =>
      cases FieldType.read_judged text with
      | taken now later =>
          rw [found] at now
          cases now
      | wrong now kind later =>
          obtain ⟨c, cs, rfl⟩ := List.exists_cons_of_ne_nil (FieldType.ne_nil_of_wrong now kind)
          have inside : ∀ more, (c :: cs ++ more).head? ≠ some ')' := fun _ => close
          exact .wrong (readParameters_of_error close now before) kind fun more =>
            readParameters_of_error (inside more) (later more) before
      | unfinished more type now kind completed =>
          -- The type is completed, and the parenthesis behind it ends the list.
          refine .unfinished (more ++ [')']) (before.reverse ++ [type])
            (readParameters_of_error close now before) kind ?_
          have completed' := FieldType.read_append completed [')']
          rw [List.append_assoc] at completed'
          rw [readParameters_of_read completed', List.nil_append, readParameters_close,
            List.reverse_cons]

/-- A result other than `V` is a type. -/
theorem readResult_of_head? {text : List Char} (other : text.head? ≠ some 'V') :
    readResult text = (FieldType.read text).map (Prod.map some id) := by
  unfold readResult
  split
  · exact absurd rfl other
  · cases FieldType.read text <;> rfl

/-- So the result is judged as types are, and `V` is always taken. -/
theorem readResult_judged (text : List Char) : Judged readResult [] text := by
  cases text with
  | nil => exact .unfinished ['V'] none rfl rfl rfl
  | cons c text =>
      by_cases void : c = 'V'
      · rw [void]
        exact .taken rfl fun _ => rfl
      · have other : ∀ more, (c :: text ++ more).head? ≠ some 'V' := by
          intro more same
          exact void (Option.some.inj same)
        exact (FieldType.read_judged (c :: text)).via some fun more =>
          readResult_of_head? (other more)

/-- Behind the parameters stands the result. -/
theorem read_of_parameters {text rest : List Char} {parameters : List FieldType}
    (found : readParameters text [] = .ok (parameters, ')' :: rest)) :
    read ('(' :: text) = (readResult rest).map (Prod.map (MethodDescriptor.mk parameters) id) := by
  simp only [read, found]
  cases readResult rest <;> rfl

theorem read_of_error {text : List Char} {error : DescriptorError}
    (found : readParameters text [] = .error error) : read ('(' :: text) = .error error := by
  rw [read, found]

theorem readParameters_append {text rest : List Char} {before parameters : List FieldType}
    (found : readParameters text before = .ok (parameters, rest)) (more : List Char) :
    readParameters (text ++ more) before = .ok (parameters, rest ++ more) := by
  obtain ⟨types, rfl, spellable, rfl, close⟩ := (readParameters_eq_ok_iff _ _ _ _).mp found
  refine (readParameters_eq_ok_iff _ _ _ _).mpr ⟨types, rfl, spellable, List.append_assoc _ _ _, ?_⟩
  obtain ⟨tail, rfl⟩ := List.head?_eq_some_iff.mp close
  rfl

/-- Parameters are found only in front of their parenthesis. -/
theorem readParameters_head? {text rest : List Char} {parameters : List FieldType}
    (found : readParameters text [] = .ok (parameters, rest)) : ∃ tail, rest = ')' :: tail := by
  obtain ⟨_, _, _, _, close⟩ := (readParameters_eq_ok_iff _ _ _ _).mp found
  exact List.head?_eq_some_iff.mp close

/-- A descriptor that does not begin with a parenthesis is refused at once. -/
theorem read_of_ne_open {c : Char} (other : c ≠ '(') (text : List Char) :
    read (c :: text) = .error .missingOpen := by
  unfold read
  split
  · rename_i same
    cases same
    exact absurd rfl other
  · rfl

/-- Any text but the empty one is judged. -/
theorem read_judged {text : List Char} (nonempty : text ≠ []) : Judged read [] text := by
  obtain ⟨c, text, rfl⟩ := List.exists_cons_of_ne_nil nonempty
  by_cases paren : c = '('
  · rw [paren]
    -- The parameters are judged first; behind their parenthesis the result decides.
    cases readParameters_judged text [] with
    | @taken parameters rest now later =>
        obtain ⟨tail, rfl⟩ := readParameters_head? now
        exact (readResult_judged tail).via (MethodDescriptor.mk parameters) fun more =>
          read_of_parameters (later more)
    | wrong now kind later =>
        exact .wrong (read_of_error now) kind fun more => read_of_error (later more)
    | unfinished more parameters now kind completed =>
        -- What completes the parameters completes the descriptor, with any result behind.
        refine .unfinished (more ++ ['V']) ⟨parameters, none⟩ (read_of_error now) kind ?_
        have completed' := readParameters_append completed ['V']
        rw [List.append_assoc] at completed'
        exact read_of_parameters completed'
  · exact .wrong (read_of_ne_open paren text) rfl fun more => read_of_ne_open paren (text ++ more)

end MethodDescriptor

/-! ## The closing parenthesis

Once the parameters are read it cannot be missing: the loop over them only ends in front of
it. -/

theorem FieldType.readClassName_ne_missingClose (text : List Char) :
    readClassName text ≠ .error .missingClose := by
  intro failed
  unfold readClassName at failed
  dsimp only at failed
  split at failed
  · cases failed
  · split at failed <;> cases failed

/-- Nothing in a type asks for the parenthesis. -/
theorem FieldType.read_ne_missingClose (text : List Char) :
    FieldType.read text ≠ .error .missingClose := by
  induction text with
  | nil => exact nofun
  | cons c text ih =>
      intro failed
      -- By the first character of the type.
      rcases read_cons c with ⟨type, taken⟩ | elements | named | refused
      · rw [taken] at failed
        cases failed
      · rw [elements, map_eq_error_iff] at failed
        exact ih failed
      · rw [named, map_eq_error_iff] at failed
        exact readClassName_ne_missingClose text failed
      · rw [refused] at failed
        cases failed

namespace MethodDescriptor

/-- The parameters fail only as a type does. -/
theorem exists_read_of_readParameters {text : List Char} {before : List FieldType}
    {error : DescriptorError} (failed : readParameters text before = .error error) :
    ∃ tail, FieldType.read tail = .error error := by
  induction text, before using readParameters.induct with
  | case1 text before close =>
      rw [readParameters, if_pos close] at failed
      cases failed
  | case2 text before close type tail found ih =>
      rw [readParameters_of_read found] at failed
      exact ih failed
  | case3 text before close error' found =>
      rw [readParameters_of_error close found] at failed
      cases failed
      exact ⟨text, found⟩

theorem readResult_ne_missingClose (text : List Char) :
    readResult text ≠ .error .missingClose := by
  intro failed
  by_cases void : text.head? = some 'V'
  · obtain ⟨tail, rfl⟩ := List.head?_eq_some_iff.mp void
    cases failed
  · rw [readResult_of_head? void, map_eq_error_iff] at failed
    exact FieldType.read_ne_missingClose text failed

/-- Nor does anything else: the text ends inside the parameters only by ending inside a type. -/
theorem read_ne_missingClose (text : List Char) : read text ≠ .error .missingClose := by
  intro failed
  cases text with
  | nil => cases failed
  | cons c text =>
      by_cases paren : c = '('
      · rw [paren] at failed
        cases found : readParameters text [] with
        | error error =>
            rw [read_of_error found] at failed
            cases failed
            obtain ⟨tail, wrong⟩ := exists_read_of_readParameters found
            exact FieldType.read_ne_missingClose tail wrong
        | ok result =>
            obtain ⟨parameters, rest⟩ := result
            obtain ⟨tail, rfl⟩ := readParameters_head? found
            rw [read_of_parameters found, map_eq_error_iff] at failed
            exact readResult_ne_missingClose tail failed
      · rw [read_of_ne_open paren] at failed
        cases failed

end MethodDescriptor

/-! ## Whole texts -/

namespace DescriptorReader

variable {α : Type}

/-- Some text that goes on from this one is read to its end. -/
def Completable (read : DescriptorReader α) (text : String) : Prop :=
  ∃ more x, read.complete (text ++ more) = .ok x

theorem completable_iff (read : DescriptorReader α) (text : String) :
    read.Completable text ↔ ∃ more x, read (text.toList ++ more) = .ok (x, []) := by
  unfold Completable
  simp only [complete_eq_ok_iff, String.toList_append]
  constructor
  · rintro ⟨more, x, done⟩
    exact ⟨more.toList, x, done⟩
  · rintro ⟨more, x, done⟩
    exact ⟨String.ofList more, x, by rwa [String.toList_ofList]⟩

/-- A text that is judged is refused for its end if and only if it can be completed. -/
theorem Judged.kind_iff {read : DescriptorReader α} {text : String} {error : DescriptorError}
    (h : Judged read [] text.toList) (failed : read.complete text = .error error) :
    (error.kind = .unexpectedEof ↔ read.Completable text) ∧
      (error.kind = .invalidInput ↔ ¬read.Completable text) := by
  rw [completable_iff]
  unfold complete at failed
  cases h with
  | @taken x rest now later =>
      -- The descriptor is followed by something, and is so whatever is added.
      rw [now] at failed
      cases rest with
      | nil => cases failed
      | cons c rest =>
          cases failed
          simp [DescriptorError.kind, later]
  | wrong now kind later =>
      rw [now] at failed
      cases failed
      simp [kind, later]
  | unfinished more x now kind completed =>
      rw [now] at failed
      cases failed
      have can : ∃ more x, read (text.toList ++ more) = .ok (x, []) := ⟨more, x, completed⟩
      simp [kind, can]

end DescriptorReader

/-- **Errors tell the unfinished from the wrong.** A text that is refused is refused for its
early end if and only if something can be added that makes it a descriptor, and as wrong input
otherwise; of method descriptors this holds for all texts but the empty one. That the
parenthesis behind the parameters is missing is never reported. -/
theorem descriptor_errors_iff_completable :
    (∀ (text : String) (error : DescriptorError),
      DescriptorReader.complete FieldType.read text = .error error →
      (error.kind = .unexpectedEof ↔ DescriptorReader.Completable FieldType.read text) ∧
      (error.kind = .invalidInput ↔ ¬DescriptorReader.Completable FieldType.read text)) ∧
    (∀ (text : String) (error : DescriptorError), text ≠ "" →
      DescriptorReader.complete MethodDescriptor.read text = .error error →
      (error.kind = .unexpectedEof ↔ DescriptorReader.Completable MethodDescriptor.read text) ∧
      (error.kind = .invalidInput ↔ ¬DescriptorReader.Completable MethodDescriptor.read text)) ∧
    (∀ text : List Char, MethodDescriptor.read text ≠ .error .missingClose) := by
  refine ⟨?_, ?_, MethodDescriptor.read_ne_missingClose⟩
  · intro text error failed
    exact (FieldType.read_judged text.toList).kind_iff failed
  · intro text error nonempty failed
    have letters : text.toList ≠ [] := fun empty => nonempty (String.toList_eq_nil_iff.mp empty)
    exact (MethodDescriptor.read_judged letters).kind_iff failed

/-- Parameters that break off inside an array can be completed. A class without a name cannot,
whatever is put behind it. -/
theorem descriptor_errors_cut_and_nameless :
    DescriptorReader.complete MethodDescriptor.read "(I[" = .error .missingType ∧
    DescriptorReader.Completable MethodDescriptor.read "(I[" ∧
    DescriptorReader.complete FieldType.read "[L;" = .error .emptyClassName ∧
    ¬DescriptorReader.Completable FieldType.read "[L;" := by
  obtain ⟨fields, methods, -⟩ := descriptor_errors_iff_completable
  have cut : DescriptorReader.complete MethodDescriptor.read "(I[" = .error .missingType := by
    have element : MethodDescriptor.readParameters ['['] [.base .int] = .error .missingType :=
      MethodDescriptor.readParameters_of_error (by decide) rfl _
    have parameters : MethodDescriptor.readParameters ['I', '['] [] = .error .missingType :=
      (MethodDescriptor.readParameters_of_read rfl []).trans element
    have whole : MethodDescriptor.read "(I[".toList = .error .missingType :=
      MethodDescriptor.read_of_error parameters
    rw [DescriptorReader.complete, whole]
  have nameless : DescriptorReader.complete FieldType.read "[L;" = .error .emptyClassName := rfl
  exact ⟨cut, (methods _ _ (by decide) cut).1.mp rfl, nameless, (fields _ _ nameless).2.mp rfl⟩

/-- The empty text is the beginning of every descriptor, and is reported as wrong all the
same. -/
example : DescriptorReader.complete MethodDescriptor.read "" = .error .missingOpen := rfl

end ClassOutline
