import ClassOutline.Error

/-!
Type descriptors: how class files spell the types of fields and methods.

A field type is a letter for a primitive type, a class name between `L` and `;`,
or `[` in front of the type of an array's elements. A method descriptor is the
field types of the parameters between parentheses, then the type of the result or
`V`. Each reader takes a descriptor off the front of a text and gives back the
rest; a whole text is read by `complete`, which refuses a rest. `spelling` is the
other direction.
-/

set_option autoImplicit false

namespace ClassOutline

/-! ## Errors -/

/-- Why a text is not a descriptor. -/
inductive DescriptorError where
  | missingBase
  | invalidBase (c : Char)
  | missingType
  | invalidType (c : Char)
  | emptyClassName
  | unterminatedClassName
  | missingOpen
  | missingClose
  | leftover (c : Char)
  deriving DecidableEq, Repr

namespace DescriptorError

/-- An end that comes too early, or a wrong text. -/
def kind : DescriptorError → FailureKind
  | missingBase | missingType | unterminatedClassName => .unexpectedEof
  | _ => .invalidInput

def message : DescriptorError → String
  | missingBase => "Missing base type character"
  | invalidBase c => s!"Invalid base type character '{c}'"
  | missingType => "Missing field type"
  | invalidType c => s!"Invalid reference type character '{c}'"
  | emptyClassName => "Empty class name"
  | unterminatedClassName => "Missing ';' after class name"
  | missingOpen => "Expected '(' for method"
  | missingClose => "Expected ')' for method"
  | leftover c => s!"Unexpected leftover input '{c}'"

end DescriptorError

/-- A reader of descriptors: what it took off the front of a text, and the rest. -/
abbrev DescriptorReader (α : Type) : Type :=
  List Char → Except DescriptorError (α × List Char)

/-- Read a whole text. -/
def DescriptorReader.complete {α : Type} (read : DescriptorReader α) (text : String) :
    Except DescriptorError α :=
  match read text.toList with
  | .error error => .error error
  | .ok (x, []) => .ok x
  | .ok (_, c :: _) => .error (.leftover c)

/-- A class name with dots between its parts. -/
def dotted (name : String) : String :=
  String.ofList (name.toList.map fun c => if c = '/' then '.' else c)

theorem toList_dotted (name : String) :
    (dotted name).toList = name.toList.map fun c => if c = '/' then '.' else c :=
  String.toList_ofList

/-- Only slashes become dots, so a text without dots was not changed. -/
theorem eq_of_dotted_eq {name text : String} (noDot : '.' ∉ text.toList)
    (h : dotted name = text) : name = text := by
  have noSlash : '/' ∉ name.toList := by
    intro mem
    apply noDot
    rw [← h, toList_dotted]
    exact List.mem_map.mpr ⟨'/', mem, if_pos rfl⟩
  have unchanged : ∀ c ∈ name.toList, (if c = '/' then '.' else c) = c := by
    intro c mem
    apply if_neg
    rintro rfl
    exact noSlash mem
  rw [← h, ← String.toList_inj, toList_dotted, List.map_congr_left unchanged, List.map_id']

/-- In a name without dots the slashes can be put back. -/
theorem undotted {name : String} (noDot : '.' ∉ name.toList) :
    ((dotted name).toList.map fun c => if c = '.' then '/' else c) = name.toList := by
  have back : ∀ c ∈ name.toList,
      (if (if c = '/' then '.' else c) = '.' then '/' else if c = '/' then '.' else c) = c := by
    intro c mem
    by_cases slash : c = '/'
    · simp [slash]
    · have plain : c ≠ '.' := by
        rintro rfl
        exact noDot mem
      simp [slash, plain]
  rw [toList_dotted, List.map_map]
  exact (List.map_congr_left back).trans (List.map_id _)

theorem dotted_inj {name name' : String} (noDot : '.' ∉ name.toList)
    (noDot' : '.' ∉ name'.toList) (h : dotted name = dotted name') : name = name' := by
  rw [← String.toList_inj, ← undotted noDot, ← undotted noDot', h]

/-! ## Primitive types -/

/-- The primitive types. -/
inductive BaseType where
  | byte
  | char
  | double
  | float
  | int
  | long
  | short
  | boolean
  deriving DecidableEq, Repr

namespace BaseType

/-- The keyword of a primitive type. -/
def keyword : BaseType → String
  | byte => "byte"
  | char => "char"
  | double => "double"
  | float => "float"
  | int => "int"
  | long => "long"
  | short => "short"
  | boolean => "boolean"

/-- The letter of a primitive type. -/
def letter : BaseType → Char
  | byte => 'B'
  | char => 'C'
  | double => 'D'
  | float => 'F'
  | int => 'I'
  | long => 'J'
  | short => 'S'
  | boolean => 'Z'

/-- The primitive type of a letter. -/
def ofLetter? (c : Char) : Option BaseType :=
  [byte, char, double, float, int, long, short, boolean].find? (·.letter == c)

def read : DescriptorReader BaseType
  | [] => .error .missingBase
  | c :: rest =>
      match ofLetter? c with
      | some base => .ok (base, rest)
      | none => .error (.invalidBase c)

end BaseType

/-! ## Field types -/

/-- The type of a value. -/
inductive FieldType where
  | base (type : BaseType)
  /-- a class by its name, with slashes between its parts -/
  | object (name : String)
  | array (element : FieldType)
  deriving DecidableEq, Repr

namespace FieldType

/-- A type as source code has it. -/
def source : FieldType → String
  | base type => type.keyword
  | object name => dotted name
  | array element => element.source ++ "[]"

/-- The descriptor of a type. -/
def spelling : FieldType → List Char
  | base type => [type.letter]
  | object name => 'L' :: (name.toList ++ [';'])
  | array element => '[' :: element.spelling

/-- The class name in front of a semicolon, and what follows. -/
def readClassName : DescriptorReader String := fun text =>
  let name := text.takeWhile (· != ';')
  match text.dropWhile (· != ';') with
  | [] => .error .unterminatedClassName
  | _ :: rest => if name.isEmpty then .error .emptyClassName else .ok (String.ofList name, rest)

def read : DescriptorReader FieldType
  | [] => .error .missingType
  | c :: rest =>
      match BaseType.ofLetter? c with
      | some type => .ok (base type, rest)
      | none =>
          if c = '[' then
            match read rest with
            | .ok (element, rest) => .ok (array element, rest)
            | .error error => .error error
          else if c = 'L' then
            match readClassName rest with
            | .ok (name, rest) => .ok (object name, rest)
            | .error error => .error error
          else .error (.invalidType c)

theorem readClassName_length {text rest : List Char} {name : String}
    (h : readClassName text = .ok (name, rest)) : rest.length < text.length := by
  unfold readClassName at h
  have whole := congrArg List.length (List.takeWhile_append_dropWhile (p := (· != ';')) (l := text))
  split at h
  · cases h
  · next tail eq =>
    dsimp only at h
    split at h
    · cases h
    · cases h
      rw [eq] at whole
      simp only [List.length_append, List.length_cons] at whole
      omega

/-- Reading a type uses up at least one character. -/
theorem read_length {text rest : List Char} {type : FieldType}
    (h : read text = .ok (type, rest)) : rest.length < text.length := by
  induction text generalizing type with
  | nil => simp [read] at h
  | cons c text ih =>
      unfold read at h
      split at h
      · cases h
        simp
      · split at h
        · split at h
          · next element tail eq =>
            cases h
            have := ih eq
            simp only [List.length_cons]
            omega
          · cases h
        · split at h
          · split at h
            · next name tail eq =>
              cases h
              have := readClassName_length eq
              simp only [List.length_cons]
              omega
            · cases h
          · cases h

end FieldType

/-! ## Methods -/

/-- The parameters of a method and its result, `none` for `void`. -/
structure MethodDescriptor where
  parameters : List FieldType
  result : Option FieldType
  deriving DecidableEq, Repr

namespace MethodDescriptor

/-- The type of the result as source code has it. -/
def resultSource (d : MethodDescriptor) : String :=
  match d.result with
  | none => "void"
  | some type => type.source

/-- The descriptor of a method. -/
def spelling (d : MethodDescriptor) : List Char :=
  '(' :: (d.parameters.flatMap FieldType.spelling
    ++ ')' :: (match d.result with
      | none => ['V']
      | some type => type.spelling))

/-- The types in front of the closing parenthesis, behind the reversed list
`before`; the parenthesis stays in the rest. -/
def readParameters (text : List Char) (before : List FieldType) :
    Except DescriptorError (List FieldType × List Char) :=
  if text.head? = some ')' then .ok (before.reverse, text)
  else
    match _ : FieldType.read text with
    | .ok (type, rest) => readParameters rest (type :: before)
    | .error error => .error error
termination_by text.length
decreasing_by exact FieldType.read_length (by assumption)

/-- The result type, or `V`. -/
def readResult : DescriptorReader (Option FieldType)
  | 'V' :: rest => .ok (none, rest)
  | text =>
      match FieldType.read text with
      | .ok (type, rest) => .ok (some type, rest)
      | .error error => .error error

def read : DescriptorReader MethodDescriptor
  | '(' :: text =>
      match readParameters text [] with
      | .error error => .error error
      | .ok (parameters, ')' :: text) =>
          match readResult text with
          | .ok (result, rest) => .ok (⟨parameters, result⟩, rest)
          | .error error => .error error
      | .ok _ => .error .missingClose
  | _ => .error .missingOpen

end MethodDescriptor

end ClassOutline
