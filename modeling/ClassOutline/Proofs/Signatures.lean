import ClassOutline.Method
import ClassOutline.Proofs.DescriptorGrammar

/-!
Signatures tell overloads apart.

The overloads of a method have its name and different descriptors. In a signature a descriptor
is flattened to source text: slashes become dots, the brackets of an array go behind its
elements, and the types of the parameters stand in a row with names between them. As long as
the names of classes are none that such a text could take for something else
(`IsSourceName`), all of this can be undone.

A type is recovered from its text because brackets only come from arrays, dots only from
slashes, and a keyword is not the name of a class (`FieldType.source_inj`). The text of the
result ends at the first space, and the text of a parameter at the first comma, since neither
is in the text of a type; so the pieces of two signatures that are the same text are the same
(`append_inj_of_not_mem`).
-/

set_option autoImplicit false

namespace ClassOutline

/-! ## Names of classes in descriptors -/

/-- The class in a type, if it is not an array of primitive values or one itself. -/
def FieldType.className? : FieldType → Option String
  | base _ => none
  | object name => some name
  | array element => element.className?

/-- All the classes in the types of the parameters and the result. -/
def MethodDescriptor.classNames (d : MethodDescriptor) : List String :=
  (d.parameters ++ d.result.toList).filterMap FieldType.className?

/-- A name with nothing in it that separates or ends a type in source text, and which is not
itself a type there. -/
structure IsSourceName (name : String) : Prop where
  noSpace : ' ' ∉ name.toList
  noComma : ',' ∉ name.toList
  noDot : '.' ∉ name.toList
  noBracket : '[' ∉ name.toList
  notVoid : name ≠ "void"
  notPrimitive : ∀ type : BaseType, name ≠ type.keyword

/-! ## Text that ends at a separator -/

/-- What comes in front of a character that does not occur in it. -/
theorem takeWhile_append_of_not_mem {c : Char} {front back : List Char} (plain : c ∉ front)
    (ends : ∀ d ∈ back.head?, d = c) : (front ++ back).takeWhile (· != c) = front := by
  have passes : ∀ d ∈ front, (d != c) = true := by
    intro d mem
    rw [bne_iff_ne]
    rintro rfl
    exact plain mem
  rw [List.takeWhile_append_of_pos passes]
  cases back with
  | nil => simp
  | cons d back =>
      have stop : d = c := ends d rfl
      simp [stop]

/-- A text is cut in one way only into a front without a character and a back that begins with
it. -/
theorem append_inj_of_not_mem {c : Char} {front front' back back' : List Char}
    (plain : c ∉ front) (plain' : c ∉ front') (ends : ∀ d ∈ back.head?, d = c)
    (ends' : ∀ d ∈ back'.head?, d = c) (h : front ++ back = front' ++ back') :
    front = front' ∧ back = back' := by
  have same : front = front' := by
    rw [← takeWhile_append_of_not_mem plain ends, h, takeWhile_append_of_not_mem plain' ends']
  refine ⟨same, ?_⟩
  rw [same] at h
  exact List.append_cancel_left h

/-- The items of a list behind its first one, each with a comma and a space in front. -/
def continued (items : List String) : List Char :=
  items.flatMap fun item => ',' :: ' ' :: item.toList

theorem head?_continued (items : List String) : ∀ c ∈ (continued items).head?, c = ',' := by
  cases items with
  | nil => simp [continued]
  | cons item items => simp [continued]

/-- A list of items is its first item and what continues it. -/
theorem toList_intercalate_cons (item : String) (items : List String) :
    (String.intercalate ", " (item :: items)).toList = item.toList ++ continued items := by
  induction items generalizing item with
  | nil => simp [continued]
  | cons next items ih =>
      rw [String.intercalate_cons_cons, String.toList_append, String.toList_append, ih]
      simp [continued]

/-- Items without commas are known from their text. -/
theorem continued_inj {items items' : List String} (plain : ∀ item ∈ items, ',' ∉ item.toList)
    (plain' : ∀ item ∈ items', ',' ∉ item.toList) (h : continued items = continued items') :
    items = items' := by
  induction items generalizing items' with
  | nil =>
      cases items' with
      | nil => rfl
      | cons item' items' => simp [continued] at h
  | cons item items ih =>
      cases items' with
      | nil => simp [continued] at h
      | cons item' items' =>
          rw [List.forall_mem_cons] at plain plain'
          simp only [continued, List.flatMap_cons, List.cons_append, List.cons.injEq,
            true_and] at h
          -- An item ends at the next comma.
          obtain ⟨first, others⟩ := append_inj_of_not_mem plain.1 plain'.1
            (head?_continued items) (head?_continued items') h
          rw [String.toList_inj.mp first, ih plain.2 plain'.2 others]

/-- A list of items without commas, none of them empty, is known from its text. -/
theorem intercalate_inj {items items' : List String}
    (plain : ∀ item ∈ items, item ≠ "" ∧ ',' ∉ item.toList)
    (plain' : ∀ item ∈ items', item ≠ "" ∧ ',' ∉ item.toList)
    (h : String.intercalate ", " items = String.intercalate ", " items') : items = items' := by
  cases items with
  | nil =>
      cases items' with
      | nil => rfl
      | cons item items =>
          -- The text of no items is empty, and the first of several items is not.
          rw [← String.toList_inj, toList_intercalate_cons, String.intercalate_nil] at h
          simp [(plain' item List.mem_cons_self).1] at h
  | cons item items =>
      cases items' with
      | nil =>
          rw [← String.toList_inj, toList_intercalate_cons, String.intercalate_nil] at h
          simp [(plain item List.mem_cons_self).1] at h
      | cons item' items' =>
          rw [List.forall_mem_cons] at plain plain'
          rw [← String.toList_inj, toList_intercalate_cons, toList_intercalate_cons] at h
          obtain ⟨first, others⟩ := append_inj_of_not_mem plain.1.2 plain'.1.2
            (head?_continued items) (head?_continued items') h
          rw [String.toList_inj.mp first,
            continued_inj (fun i mem => (plain.2 i mem).2) (fun i mem => (plain'.2 i mem).2) others]

/-! ## Types -/

namespace BaseType

theorem keyword_inj {type type' : BaseType} (h : type.keyword = type'.keyword) :
    type = type' := by
  revert h
  cases type <;> cases type' <;> decide

/-- A keyword is made of letters. -/
theorem not_mem_keyword (type : BaseType) : ' ' ∉ type.keyword.toList ∧
    ',' ∉ type.keyword.toList ∧ '.' ∉ type.keyword.toList ∧ '[' ∉ type.keyword.toList := by
  cases type <;> decide

end BaseType

namespace FieldType

/-- The class in a type, if there is one, has a name that source text keeps apart. -/
def HasSourceName (type : FieldType) : Prop := ∀ name ∈ type.className?, IsSourceName name

/-- A dotted name has dots in it and what was in the name. -/
theorem mem_of_mem_dotted {name : String} {c : Char} (mem : c ∈ (dotted name).toList)
    (notDot : c ≠ '.') : c ∈ name.toList := by
  rw [toList_dotted, List.mem_map] at mem
  obtain ⟨d, inside, made⟩ := mem
  by_cases slash : d = '/'
  · rw [if_pos slash] at made
    exact absurd made.symm notDot
  · rw [if_neg slash] at made
    rwa [← made]

/-- Nothing in the text of a type separates types. -/
theorem not_mem_source {type : FieldType} (named : type.HasSourceName) :
    ' ' ∉ type.source.toList ∧ ',' ∉ type.source.toList := by
  induction type with
  | base type => exact ⟨type.not_mem_keyword.1, type.not_mem_keyword.2.1⟩
  | object name =>
      have plain : IsSourceName name := named name rfl
      exact ⟨fun mem => plain.noSpace (mem_of_mem_dotted mem (by decide)),
        fun mem => plain.noComma (mem_of_mem_dotted mem (by decide))⟩
  | array element ih =>
      obtain ⟨noSpace, noComma⟩ := ih named
      rw [source, String.toList_append]
      simp [noSpace, noComma]

/-- A bracket in the text of a type is that of an array. -/
theorem bracket_mem_source_iff {type : FieldType} (named : type.HasSourceName) :
    '[' ∈ type.source.toList ↔ ∃ element, type = array element := by
  cases type with
  | base type => simp [source, type.not_mem_keyword.2.2.2]
  | object name =>
      have plain : IsSourceName name := named name rfl
      have noBracket : '[' ∉ (dotted name).toList :=
        fun mem => plain.noBracket (mem_of_mem_dotted mem (by decide))
      simp [source, noBracket]
  | array element => simp [source]

/-- Only an array is written like an array. -/
theorem source_ne_array {type element : FieldType} (named : type.HasSourceName)
    (named' : (array element).HasSourceName) (other : ∀ inner, type ≠ array inner) :
    type.source ≠ (array element).source := by
  intro same
  have bracket := (bracket_mem_source_iff named').mpr ⟨element, rfl⟩
  rw [← same, bracket_mem_source_iff named] at bracket
  obtain ⟨inner, isArray⟩ := bracket
  exact other inner isArray

/-- A class is not written like a text without dots that is not its name. -/
theorem dotted_ne {name text : String} (noDot : '.' ∉ text.toList) (other : name ≠ text) :
    dotted name ≠ text :=
  fun same => other (eq_of_dotted_eq noDot same)

/-- A type is known from its text. -/
theorem source_inj {type type' : FieldType} (named : type.HasSourceName)
    (named' : type'.HasSourceName) (h : type.source = type'.source) : type = type' := by
  induction type generalizing type' with
  | array element ih =>
      have bracket := (bracket_mem_source_iff named).mpr ⟨element, rfl⟩
      rw [h, bracket_mem_source_iff named'] at bracket
      obtain ⟨element', rfl⟩ := bracket
      -- Both have brackets at the end, and the class in an array is that of its elements.
      have inner : element'.HasSourceName := named'
      rw [source, source, String.append_left_inj] at h
      rw [ih named inner h]
  | base type =>
      cases type' with
      | base type' => rw [BaseType.keyword_inj h]
      | object name =>
          -- A keyword has no dots, so only the class of that very name is written like it.
          have plain : IsSourceName name := named' name rfl
          exact absurd h.symm (dotted_ne type.not_mem_keyword.2.2.1 (plain.notPrimitive type))
      | array element => exact absurd h (source_ne_array named named' nofun)
  | object name =>
      have plain : IsSourceName name := named name rfl
      cases type' with
      | base type' =>
          exact absurd h (dotted_ne type'.not_mem_keyword.2.2.1 (plain.notPrimitive type'))
      | object name' =>
          have plain' : IsSourceName name' := named' name' rfl
          rw [dotted_inj plain.noDot plain'.noDot h]
      | array element => exact absurd h (source_ne_array named named' nofun)

-- A class named by a keyword would be written like the primitive type.
example : (object "int").source = (base .int).source := by decide

/-- No type is written like the absence of one. -/
theorem source_ne_void {type : FieldType} (named : type.HasSourceName) : type.source ≠ "void" := by
  cases type with
  | base type => cases type <;> decide
  | object name =>
      have plain : IsSourceName name := named name rfl
      exact dotted_ne (by decide) plain.notVoid
  | array element =>
      intro same
      have bracket := (bracket_mem_source_iff named).mpr ⟨element, rfl⟩
      rw [same] at bracket
      exact absurd bracket (by decide)

end FieldType

/-! ## Signatures -/

namespace MethodDescriptor

/-- Every class in a descriptor has a name that source text keeps apart. -/
def HasSourceNames (d : MethodDescriptor) : Prop := ∀ name ∈ d.classNames, IsSourceName name

theorem HasSourceNames.parameter {d : MethodDescriptor} (named : d.HasSourceNames)
    {type : FieldType} (mem : type ∈ d.parameters) : type.HasSourceName := by
  intro name is
  exact named name (List.mem_filterMap.mpr ⟨type, List.mem_append_left _ mem, is⟩)

theorem HasSourceNames.result {d : MethodDescriptor} (named : d.HasSourceNames)
    {type : FieldType} (is : d.result = some type) : type.HasSourceName := by
  intro name isName
  refine named name (List.mem_filterMap.mpr ⟨type, List.mem_append_right _ ?_, isName⟩)
  simp [is]

/-- The text of a result has no space in it, also where there is none. -/
theorem space_not_mem_resultSource {d : MethodDescriptor} (named : d.HasSourceNames) :
    ' ' ∉ d.resultSource.toList := by
  rw [resultSource]
  cases is : d.result with
  | none => decide
  | some type => exact (FieldType.not_mem_source (named.result is)).1

/-- The result is known from its text, also if there is none. -/
theorem resultSource_inj {d d' : MethodDescriptor} (named : d.HasSourceNames)
    (named' : d'.HasSourceNames) (h : d.resultSource = d'.resultSource) :
    d.result = d'.result := by
  rw [resultSource, resultSource] at h
  -- No type is written `void`, so both are missing or neither.
  cases is : d.result with
  | none =>
      cases is' : d'.result with
      | none => rfl
      | some type' =>
          simp only [is, is'] at h
          exact absurd h.symm (FieldType.source_ne_void (named'.result is'))
  | some type =>
      cases is' : d'.result with
      | none =>
          simp only [is, is'] at h
          exact absurd h (FieldType.source_ne_void (named.result is))
      | some type' =>
          simp only [is, is'] at h
          rw [FieldType.source_inj (named.result is) (named'.result is') h]

end MethodDescriptor

namespace Method

theorem parameterText_eq (i : Nat) (type : FieldType) :
    parameterText i type = type.source ++ (" arg" ++ toString i) := by
  rw [parameterText, ← String.append_assoc]
  rfl

/-- There is no comma in it, and it is not empty. -/
theorem parameterText_plain (i : Nat) {type : FieldType} (named : type.HasSourceName) :
    parameterText i type ≠ "" ∧ ',' ∉ (parameterText i type).toList := by
  rw [parameterText_eq]
  constructor
  · simp
  · have digits : ',' ∉ Nat.toDigits 10 i := by
      intro mem
      exact absurd (Nat.isDigit_of_mem_toDigits (by decide) (by decide) mem) (by decide)
    simp [(FieldType.not_mem_source named).2, digits]

/-- The parameters are known from their text. -/
theorem parameterSource_inj {types types' : List FieldType}
    (named : ∀ type ∈ types, type.HasSourceName) (named' : ∀ type ∈ types', type.HasSourceName)
    (h : parameterSource types = parameterSource types') : types = types' := by
  have plain : ∀ types : List FieldType, (∀ type ∈ types, type.HasSourceName) →
      ∀ item ∈ types.mapIdx parameterText, item ≠ "" ∧ ',' ∉ item.toList := by
    intro types named item mem
    obtain ⟨i, bound, rfl⟩ := List.mem_mapIdx.mp mem
    exact parameterText_plain i (named _ (List.getElem_mem bound))
  have same : types.mapIdx parameterText = types'.mapIdx parameterText :=
    intercalate_inj (plain types named) (plain types' named') h
  have length : types.length = types'.length := by
    rw [← List.length_mapIdx (f := parameterText), same, List.length_mapIdx]
  -- Parameters in the same place have the same name, so their types are the same text.
  refine List.ext_getElem length ?_
  intro i bound bound'
  have item : parameterText i types[i] = parameterText i types'[i] := by
    rw [← List.getElem_mapIdx (f := parameterText) (h := by simpa using bound),
      ← List.getElem_mapIdx (f := parameterText) (h := by simpa using bound')]
    simp only [same]
  rw [parameterText_eq, parameterText_eq, String.append_left_inj] at item
  exact FieldType.source_inj (named _ (List.getElem_mem bound)) (named' _ (List.getElem_mem bound'))
    item

theorem signature_eq {m : Method} {d : MethodDescriptor}
    (read : DescriptorReader.complete MethodDescriptor.read m.descriptor = .ok d) :
    m.signature = m.access.leadingText ++
      (d.resultSource ++ " " ++ m.name ++ "(" ++ parameterSource d.parameters ++ ")") ++
      if m.throws.isEmpty then "" else " throws " ++ String.intercalate ", " m.throws := by
  rw [signature]
  simp only [read]

/-- Descriptors that give methods of one name the same text are the same. -/
theorem descriptor_eq_of_source_eq {d d' : MethodDescriptor} (named : d.HasSourceNames)
    (named' : d'.HasSourceNames) {name : String}
    (h : d.resultSource ++ " " ++ name ++ "(" ++ parameterSource d.parameters ++ ")" =
      d'.resultSource ++ " " ++ name ++ "(" ++ parameterSource d'.parameters ++ ")") :
    d = d' := by
  rw [String.append_left_inj, ← String.toList_inj] at h
  simp only [String.toList_append, List.append_assoc] at h
  -- The result ends at the first space, and behind it the two texts go on alike to the
  -- parameters.
  obtain ⟨results, rests⟩ := append_inj_of_not_mem
    (MethodDescriptor.space_not_mem_resultSource named)
    (MethodDescriptor.space_not_mem_resultSource named') (by simp) (by simp) h
  have parameters : parameterSource d.parameters = parameterSource d'.parameters := by
    rw [← String.toList_inj]
    simpa only [List.append_cancel_left_eq] using rests
  have result := MethodDescriptor.resultSource_inj named named' (String.toList_inj.mp results)
  have types := parameterSource_inj (fun _ mem => named.parameter mem)
    (fun _ mem => named'.parameter mem) parameters
  cases d
  cases d'
  cases result
  cases types
  rfl

/-- **Overloads have different signatures.** Take two methods with the same flags, name and
exceptions, whose descriptors can be read and have only classes in them that source text keeps
apart. Their signatures are the same text if and only if their descriptors are. -/
theorem signature_eq_iff_descriptor_eq {m n : Method} {d d' : MethodDescriptor}
    (access : m.access = n.access) (name : m.name = n.name) (throws : m.throws = n.throws)
    (read : DescriptorReader.complete MethodDescriptor.read m.descriptor = .ok d)
    (read' : DescriptorReader.complete MethodDescriptor.read n.descriptor = .ok d')
    (named : d.HasSourceNames) (named' : d'.HasSourceNames) :
    m.signature = n.signature ↔ m.descriptor = n.descriptor := by
  constructor
  · intro same
    rw [signature_eq read, signature_eq read', access, name, throws, String.append_left_inj,
      String.append_right_inj] at same
    have descriptors := descriptor_eq_of_source_eq named named' same
    -- Both texts are the spelling of one descriptor.
    rw [DescriptorReader.complete_eq_ok_iff, MethodDescriptor.read_eq_ok_iff] at read read'
    rw [← String.toList_inj, read.1, read'.1, descriptors]
  · intro same
    rw [signature, signature, access, name, throws, same]

/-- A method `f` with a descriptor. -/
def overloadSample (d : MethodDescriptor) : Method :=
  { access := .ofBits .ofMethod 1, name := "f", descriptor := String.ofList d.spelling,
    throws := ["a.E"] }

/-- `f(int, a.B[])`, with a class in a package. -/
def lastArraySample : MethodDescriptor := ⟨[.base .int, .array (.object "a/B")], none⟩

/-- `f(int[], a.B)`, where the brackets are at the other parameter. -/
def firstArraySample : MethodDescriptor := ⟨[.array (.base .int), .object "a/B"], none⟩

/-- The same types with the brackets in another place make another signature. -/
theorem overloadSample_signatures_differ :
    lastArraySample.HasSourceNames ∧ firstArraySample.HasSourceNames ∧
    (overloadSample lastArraySample).signature ≠ (overloadSample firstArraySample).signature := by
  have plain : IsSourceName "a/B" :=
    ⟨by decide, by decide, by decide, by decide, by decide, fun type => by cases type <;> decide⟩
  have named : lastArraySample.HasSourceNames := List.forall_mem_singleton.mpr plain
  have named' : firstArraySample.HasSourceNames := List.forall_mem_singleton.mpr plain
  -- A descriptor that can be spelled is read back from its spelling.
  have read : ∀ d : MethodDescriptor, d.Spellable →
      DescriptorReader.complete MethodDescriptor.read (String.ofList d.spelling) = .ok d := by
    intro d spellable
    rw [DescriptorReader.complete_eq_ok_iff, MethodDescriptor.read_eq_ok_iff,
      String.toList_ofList, List.append_nil]
    exact ⟨rfl, spellable⟩
  refine ⟨named, named', ?_⟩
  rw [Ne, signature_eq_iff_descriptor_eq (m := overloadSample lastArraySample)
    (n := overloadSample firstArraySample) rfl rfl rfl (read _ (by decide)) (read _ (by decide))
    named named']
  decide

end Method

end ClassOutline
