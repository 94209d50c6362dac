import ClassOutline.ClassFile
import ClassOutline.Proofs.AttributeEffects
import ClassOutline.Proofs.PoolAnswers
import ClassOutline.Proofs.PoolRoundTrip

/-!
Class files survive being written and read.

A class file refers to its constants by index and to its attributes by records; the
class that is read from it has names in the place of indices and the effect of its
attributes in the place of records. `ClassFile.Describes` says which class belongs to a
class file. It says so outright: names are given by the constants they are made of, and the
effect of attributes by what counts among them. No bytes are mentioned other than those of
single records.

The two sides meet record by record. A record that is read to its last byte when it
stands alone is read the same way anywhere (`Streams.reads`), and from there on the
class file is a sequence of exact reads in the order in which it was written.
-/

set_option autoImplicit false

namespace ClassOutline

open Decoder

/-! ## Class files that can be read -/

/-- The record, read alone with the given answers, is the attribute to the last byte. -/
def Record.ReadsAlone (settings : Settings) (r : Resolver) (record : Record) (a : Attribute) :
    Prop :=
  (Attribute.decode settings r).verdict record.encode = .ok (a, [])

/-- What a member needs to be read: a count that fits, two names, and readable records. -/
structure Member.WellFormed {k : AccessKind} (settings : Settings) (p : Pool)
    (m : Member k Record) : Prop where
  fewAttributes : m.attributes.length ≤ 65535
  name : ∃ text, p.utf8 m.name = .ok text
  descriptor : ∃ text, p.utf8 m.descriptor = .ok text
  records : ∀ record ∈ m.attributes, ∃ a, record.ReadsAlone settings p.resolver a

/-- What a class file needs to be read. Of the length of a payload nothing is asked: that
its record reads alone is enough. -/
structure ClassFile.WellFormed (settings : Settings) (file : ClassFile) : Prop where
  /-- the pool was built by pushes -/
  built : ∃ ks, file.pool = Pool.ofConstants ks
  fewSlots : file.pool.size ≤ 65535
  shortTexts : ∀ text, some (Constant.utf8 text) ∈ file.pool.slots →
    (ModifiedUtf8.encode text).length ≤ 65535
  fewInterfaces : file.interfaces.length ≤ 65535
  fewFields : file.fields.length ≤ 65535
  fewMethods : file.methods.length ≤ 65535
  fewAttributes : file.attributes.length ≤ 65535
  /-- the class itself is a class of the pool, and not index 0 -/
  thisClass : file.thisClass ≠ 0 ∧ ∃ name, file.pool.className file.thisClass = .ok name
  /-- the superclass is a class of the pool, or missing -/
  superClass : file.superClass = 0 ∨ ∃ name, file.pool.className file.superClass = .ok name
  interfaces : ∀ index ∈ file.interfaces, ∃ name, file.pool.className index = .ok name
  fields : ∀ m ∈ file.fields, m.WellFormed settings file.pool
  methods : ∀ m ∈ file.methods, m.WellFormed settings file.pool
  records : ∀ record ∈ file.attributes, ∃ a, record.ReadsAlone settings file.pool.resolver a

/-! ## The class of a class file -/

/-- The parts are those of the member: its flags, the texts at its indices, and its records in
order. -/
structure Member.HasParts {k : AccessKind} (settings : Settings) (p : Pool)
    (m : Member k Record) (parts : MemberParts k) : Prop where
  access : parts.access = m.access
  name : p.get? m.name = some (.utf8 parts.name)
  descriptor : p.get? m.descriptor = some (.utf8 parts.descriptor)
  attributes : List.Forall₂ (Record.ReadsAlone settings p.resolver) m.attributes parts.attributes

/-- The class that belongs to a class file. -/
structure ClassFile.Describes (settings : Settings) (file : ClassFile) (c : Class) : Prop where
  version : c.version = file.version
  pool : c.pool = file.pool
  access : c.access = file.access
  name : file.pool.NamesClass file.thisClass c.name
  /-- there is none if and only if the index is 0 -/
  superclass : file.superClass = 0 ∧ c.superclass = none ∨
    ∃ name, file.pool.NamesClass file.superClass name ∧ c.superclass = some name
  interfaces : List.Forall₂ file.pool.ListsClass file.interfaces c.interfaces
  fields : List.Forall₂ (fun m field => ∃ as, field.Carries as ∧
    Member.HasParts settings file.pool m ⟨field.access, field.name, field.descriptor, as⟩)
    file.fields c.fields
  methods : List.Forall₂ (fun m method => ∃ as, method.Carries as ∧
    Member.HasParts settings file.pool m ⟨method.access, method.name, method.descriptor, as⟩)
    file.methods c.methods
  attributes : ∃ as, c.Carries as ∧
    List.Forall₂ (Record.ReadsAlone settings file.pool.resolver) file.attributes as

/-! ## Reading the parts -/

/-- What a record is read as alone it is read as in front of anything. -/
theorem Record.ReadsAlone.reads {settings : Settings} {r : Resolver} {record : Record}
    {a : Attribute} (alone : record.ReadsAlone settings r a) :
    Reads (Attribute.decode settings r) record.encode a :=
  (Attribute.regular_decode settings r).streams.reads alone

/-- A list of records that read alone is read in order. -/
theorem Record.reads_counted {settings : Settings} {r : Resolver} {records : List Record}
    {as : List Attribute} (few : records.length ≤ 65535)
    (alone : List.Forall₂ (Record.ReadsAlone settings r) records as) :
    Reads (counted (Attribute.decode settings r)) (countedBytes Record.encode records) as :=
  .counted few (alone.imp fun _ _ h => h.reads)

theorem Version.reads_decode (v : Version) : Reads Version.decode v.encode v :=
  (Reads.u16 v.minor).bind ((Reads.u16 v.major).map (Version.mk · v.minor))

/-- Flags are read back, since they have no bits but those of their kind. -/
theorem Access.reads_decode {k : AccessKind} (a : Access k) :
    Reads (Access.decode k) a.encode a := by
  have h := (Reads.u16 a.bits).map (Access.ofBits k)
  rwa [Access.ofBits_bits] at h

section Parts

variable {r : Resolver} {nested : Decoder Attribute}

/-- A member is read from its flags, from two indices that have a text, and from its
attributes. -/
theorem MemberParts.reads_decode {k : AccessKind} {flags inside : List UInt8}
    {nameIndex descriptorIndex : UInt16} {parts : MemberParts k}
    (access : Reads (Access.decode k) flags parts.access)
    (name : r .utf8 nameIndex = .ok parts.name)
    (descriptor : r .utf8 descriptorIndex = .ok parts.descriptor)
    (attributes : Reads (counted nested) inside parts.attributes) :
    Reads (MemberParts.decode k r nested)
      (flags ++ (bytes16 nameIndex ++ (bytes16 descriptorIndex ++ inside))) parts := by
  refine access.bind ((Reads.u16 nameIndex).bind (.after (.ask name) ?_))
  refine (Reads.u16 descriptorIndex).bind (.after (.ask descriptor) ?_)
  exact attributes.map _

/-- What is made of its parts takes no more bytes. -/
theorem MemberParts.reads_decodeAs {k : AccessKind} {α : Type} {bytes : List UInt8}
    {parts : MemberParts k} (read : Reads (MemberParts.decode k r nested) bytes parts)
    (make : MemberParts k → α) (ignored : String → List Attribute → List Event) :
    Reads (MemberParts.decodeAs make ignored r nested) bytes (make parts) :=
  read.before ((Reads.notes _).map fun _ => make parts)

/-- Behind its pool a class is read part by part, and its attributes take effect at the end. -/
theorem Class.reads_decodeBody {version : Version} {pool : Pool} {access : Access .ofClass}
    {name : String} {superclass : Option String} {interfaces : List String} {fields : List Field}
    {methods : List Method} {attributes : List Attribute}
    {flags this super listed fielded methoded inside : List UInt8}
    (readAccess : Reads (Access.decode .ofClass) flags access)
    (readName : Reads (decodeName r) this name)
    (readSuperclass : Reads (decodeSuperclass r) super superclass)
    (readInterfaces : Reads (counted (decodeInterface r)) listed interfaces)
    (readFields : Reads (counted (Field.decodeWith r nested)) fielded fields)
    (readMethods : Reads (counted (Method.decodeWith r nested)) methoded methods)
    (readAttributes : Reads (counted nested) inside attributes) :
    Reads (decodeBody r nested version pool)
      (flags ++ (this ++ (super ++ (listed ++ (fielded ++ (methoded ++ inside))))))
      (attributes.foldl Class.apply
        { version, pool, access, name, superclass, interfaces, fields, methods }) := by
  refine readAccess.bind (readName.bind (readSuperclass.bind (.after (.note _) ?_)))
  refine readInterfaces.bind (readFields.bind (readMethods.bind ?_))
  exact readAttributes.before ((Reads.notes _).map _)

end Parts

/-- A member that has parts is read as these parts. -/
theorem Member.HasParts.reads {k : AccessKind} {settings : Settings} {p : Pool}
    {m : Member k Record} {parts : MemberParts k} (h : m.HasParts settings p parts)
    (few : m.attributes.length ≤ 65535) :
    Reads (MemberParts.decode k p.resolver (Attribute.decode settings p.resolver)) m.encode
      parts := by
  have access := Access.reads_decode m.access
  rw [← h.access] at access
  simp only [Member.encode, ← h.access, List.append_assoc]
  exact MemberParts.reads_decode access (Pool.utf8_eq_ok_iff.mpr h.name)
    (Pool.utf8_eq_ok_iff.mpr h.descriptor) (Record.reads_counted few h.attributes)

/-- A member that can be read has parts. -/
theorem Member.WellFormed.exists_hasParts {k : AccessKind} {settings : Settings} {p : Pool}
    {m : Member k Record} (h : m.WellFormed settings p) :
    ∃ parts, m.HasParts settings p parts := by
  obtain ⟨name, hname⟩ := h.name
  obtain ⟨descriptor, hdescriptor⟩ := h.descriptor
  obtain ⟨attributes, hattributes⟩ := exists_forall₂ h.records
  exact ⟨⟨m.access, name, descriptor, attributes⟩, rfl, Pool.utf8_eq_ok_iff.mp hname,
    Pool.utf8_eq_ok_iff.mp hdescriptor, hattributes⟩

/-- A field carries its attributes, and else is what its parts are. -/
theorem Field.exists_reads_decodeWith {settings : Settings} {p : Pool}
    {m : Member .ofField Record} (h : m.WellFormed settings p) :
    ∃ field : Field, (∃ as, field.Carries as ∧
        m.HasParts settings p ⟨field.access, field.name, field.descriptor, as⟩) ∧
      Reads (Field.decodeWith p.resolver (Attribute.decode settings p.resolver)) m.encode
        field := by
  obtain ⟨parts, hparts⟩ := h.exists_hasParts
  have read := MemberParts.reads_decodeAs (hparts.reads h.fewAttributes) MemberParts.field
    Field.ignored
  refine ⟨parts.field, ⟨parts.attributes, ?_, ?_⟩, read⟩
  · exact Field.carries_foldl_apply _ _ _ _
  · obtain ⟨access, name, descriptor⟩ := Field.foldl_apply_unchanged parts.attributes
      { access := parts.access, name := parts.name, descriptor := parts.descriptor }
    rwa [MemberParts.field, access, name, descriptor]

/-- A method likewise. -/
theorem Method.exists_reads_decodeWith {settings : Settings} {p : Pool}
    {m : Member .ofMethod Record} (h : m.WellFormed settings p) :
    ∃ method : Method, (∃ as, method.Carries as ∧
        m.HasParts settings p ⟨method.access, method.name, method.descriptor, as⟩) ∧
      Reads (Method.decodeWith p.resolver (Attribute.decode settings p.resolver)) m.encode
        method := by
  obtain ⟨parts, hparts⟩ := h.exists_hasParts
  have read := MemberParts.reads_decodeAs (hparts.reads h.fewAttributes) MemberParts.method
    Method.ignored
  refine ⟨parts.method, ⟨parts.attributes, ?_, ?_⟩, read⟩
  · exact Method.carries_foldl_apply _ _ _ _
  · obtain ⟨access, name, descriptor⟩ := Method.foldl_apply_unchanged parts.attributes
      { access := parts.access, name := parts.name, descriptor := parts.descriptor }
    rwa [MemberParts.method, access, name, descriptor]

namespace Class

/-- The magic number is accepted. -/
theorem reads_decodeMagic : Reads decodeMagic (bytes32 classMagic) () := by
  refine (Reads.u32 classMagic).before ?_
  rw [if_pos rfl]
  exact .pure ()

/-- A name that is looked up at an index other than 0 is read. -/
theorem reads_decodeName {r : Resolver} {index : UInt16} {name : String} (present : index ≠ 0)
    (answer : r .className index = .ok name) : Reads (decodeName r) (bytes16 index) name := by
  refine (Reads.u16 index).before ?_
  rw [if_neg present]
  exact .ask answer

/-- A superclass is read as missing if its index is 0, and as the class at the index if not. -/
theorem reads_decodeSuperclass {p : Pool} {index : UInt16} {superclass : Option String}
    (known : index = 0 ∧ superclass = none ∨
      ∃ name, p.NamesClass index name ∧ superclass = some name) :
    Reads (decodeSuperclass p.resolver) (bytes16 index) superclass := by
  refine (Reads.u16 index).before ?_
  rcases known with ⟨zero, rfl⟩ | ⟨name, named, rfl⟩
  · rw [if_pos zero]
    exact .pure none
  · rw [if_neg named.1]
    have answer := (Pool.className_eq_ok_iff_namesClass named.1).mpr named
    exact (Reads.ask answer).map some

/-- There is something to read if the index is 0 or has an answer. -/
theorem exists_superclass {p : Pool} {index : UInt16}
    (known : index = 0 ∨ ∃ name, p.className index = .ok name) :
    ∃ superclass, index = 0 ∧ superclass = none ∨
      ∃ name, p.NamesClass index name ∧ superclass = some name := by
  by_cases zero : index = 0
  · exact ⟨none, .inl ⟨zero, rfl⟩⟩
  · obtain ⟨name, answer⟩ := known.resolve_left zero
    exact ⟨some name, .inr ⟨name, (Pool.className_eq_ok_iff_namesClass zero).mp answer, rfl⟩⟩

end Class

/-! ## The round trip -/

/-- A pool within the limits of the format is read back. -/
theorem ClassFile.WellFormed.reads_pool {settings : Settings} {file : ClassFile}
    (h : file.WellFormed settings) : Reads Pool.decode file.pool.encode file.pool := by
  obtain ⟨ks, built⟩ := h.built
  have few := h.fewSlots
  have short := h.shortTexts
  rw [built] at few short ⊢
  exact Pool.reads_decode few (Pool.forall_fits_iff.mpr short)

/-- A class file is read back as the class that belongs to it. -/
theorem ClassFile.exists_reads_decode {settings : Settings} {file : ClassFile}
    (h : file.WellFormed settings) :
    ∃ c, file.Describes settings c ∧ Reads (Class.decode settings) file.encode c := by
  obtain ⟨this, name, hname⟩ := h.thisClass
  obtain ⟨superclass, hsuper⟩ := Class.exists_superclass h.superClass
  obtain ⟨interfaces, hinterfaces⟩ := exists_forall₂ h.interfaces
  obtain ⟨fields, hfields⟩ :=
    exists_forall₂ fun m inside => Field.exists_reads_decodeWith (h.fields m inside)
  obtain ⟨methods, hmethods⟩ :=
    exists_forall₂ fun m inside => Method.exists_reads_decodeWith (h.methods m inside)
  obtain ⟨attributes, hattributes⟩ := exists_forall₂ h.records
  have read : Reads (Class.decode settings) file.encode (attributes.foldl Class.apply
      { version := file.version, pool := file.pool, access := file.access, name, superclass,
        interfaces, fields, methods }) := by
    rw [Class.decode_eq]
    simp only [ClassFile.encode, List.append_assoc]
    refine Class.reads_decodeMagic.bind ((Version.reads_decode file.version).bind
      (h.reads_pool.bind ?_))
    exact Class.reads_decodeBody (Access.reads_decode file.access)
      (Class.reads_decodeName this hname) (Class.reads_decodeSuperclass hsuper)
      (.counted h.fewInterfaces (hinterfaces.imp fun _ _ answer => .lookup answer))
      (.counted h.fewFields (hfields.imp fun _ _ both => both.2))
      (.counted h.fewMethods (hmethods.imp fun _ _ both => both.2))
      (Record.reads_counted h.fewAttributes hattributes)
  -- What the file says of the class itself is not touched by the attributes.
  refine ⟨_, ?_, read⟩
  exact
    { version := Class.foldl_apply_of_bare Class.version (fun _ => rfl) _ _
      pool := Class.foldl_apply_of_bare Class.pool (fun _ => rfl) _ _
      access := Class.foldl_apply_of_bare Class.access (fun _ => rfl) _ _
      name := by
        rw [Class.foldl_apply_of_bare Class.name fun _ => rfl]
        exact (Pool.className_eq_ok_iff_namesClass this).mp hname
      superclass := by
        rw [Class.foldl_apply_of_bare Class.superclass fun _ => rfl]
        exact hsuper
      interfaces := by
        rw [Class.foldl_apply_of_bare Class.interfaces fun _ => rfl]
        exact hinterfaces.imp fun _ _ answer => Pool.className_eq_ok_iff.mp answer
      fields := by
        rw [Class.foldl_apply_of_bare Class.fields fun _ => rfl]
        exact hfields.imp fun _ _ both => both.1
      methods := by
        rw [Class.foldl_apply_of_bare Class.methods fun _ => rfl]
        exact hmethods.imp fun _ _ both => both.1
      attributes := ⟨attributes,
        Class.carries_foldl_apply ⟨rfl, by simp, by simp⟩ attributes, hattributes⟩ }

/-- **Class files survive.** A class file that can be read, written in front of any bytes
and read with any settings, gives the class that belongs to it and leaves exactly these
bytes. -/
theorem ClassFile.verdict_encode (settings : Settings) (file : ClassFile) (rest : List UInt8)
    (h : file.WellFormed settings) :
    ∃ c, (Class.decode settings).verdict (file.encode ++ rest) = .ok (c, rest) ∧
      file.Describes settings c := by
  obtain ⟨c, describes, read⟩ := exists_reads_decode h
  exact ⟨c, read.verdict_append rest, describes⟩

/-- The pool of a class `a.A` with a field `long x` and a method `void run()`. -/
def samplePool : Pool :=
  .ofConstants [.utf8 "a/A", .classRef 1, .utf8 "java/lang/Object", .classRef 3, .utf8 "x",
    .utf8 "J", .utf8 "ConstantValue", .long 42, .utf8 "run", .utf8 "()V", .utf8 "Code",
    .utf8 "SourceFile", .utf8 "A.java", .utf8 "Deprecated"]

/-- The class file of that class. The body of the method has a handler and an attribute
of its own. -/
def sampleFile : ClassFile where
  version := .java8
  pool := samplePool
  access := .ofBits .ofClass 0x21
  thisClass := 2
  superClass := 4
  interfaces := [4]
  fields := [⟨.ofBits .ofField 0x19, 5, 6, [⟨7, [0, 8]⟩]⟩]
  methods := [⟨.ofBits .ofMethod 0x01, 10, 11,
    [⟨12, [0, 1, 0, 1, 0, 0, 0, 1, 0xB1, 0, 1, 0, 0, 0, 1, 0, 0, 0, 0, 0, 1, 0, 15, 0, 0, 0, 0]⟩,
     ⟨15, []⟩]⟩]
  attributes := [⟨13, [0, 14]⟩]

/-- The texts of the sample are short. -/
theorem length_encode_samplePool {text : String}
    (inside : some (Constant.utf8 text) ∈ samplePool.slots) :
    (ModifiedUtf8.encode text).length ≤ 65535 := by
  rw [samplePool, Pool.mem_slots_ofConstants] at inside
  simp only [List.mem_cons, Constant.utf8.injEq, reduceCtorEq, false_or, List.not_mem_nil,
    or_false] at inside
  rcases inside with rfl | rfl | rfl | rfl | rfl | rfl | rfl | rfl | rfl | rfl | rfl <;> decide

/-- Everything in the sample has a name and a meaning. -/
theorem wellFormed_sampleFile : sampleFile.WellFormed { strict := true } where
  built := ⟨_, rfl⟩
  fewSlots := by decide
  shortTexts := fun _ inside => length_encode_samplePool inside
  fewInterfaces := by decide
  fewFields := by decide
  fewMethods := by decide
  fewAttributes := by decide
  thisClass := ⟨by decide, "a.A", rfl⟩
  superClass := .inr ⟨"java.lang.Object", rfl⟩
  interfaces := by
    intro index inside
    cases List.mem_singleton.mp inside
    exact ⟨"java.lang.Object", rfl⟩
  fields := by
    intro m inside
    cases List.mem_singleton.mp inside
    refine ⟨by decide, ⟨"x", rfl⟩, ⟨"J", rfl⟩, ?_⟩
    intro record inside
    cases List.mem_singleton.mp inside
    exact ⟨.constantValue "42L", rfl⟩
  methods := by
    intro m inside
    cases List.mem_singleton.mp inside
    refine ⟨by decide, ⟨"run", rfl⟩, ⟨"()V", rfl⟩, ?_⟩
    intro record inside
    rcases List.mem_pair.mp inside with rfl | rfl
    · exact ⟨.code ⟨1, 1, [0xB1], [⟨0, 1, 0, anyClass⟩], [.deprecated]⟩, rfl⟩
    · exact ⟨.deprecated, rfl⟩
  records := by
    intro record inside
    cases List.mem_singleton.mp inside
    exact ⟨.sourceFile "A.java", rfl⟩

/-- It is read back in strict mode, with two bytes left over. -/
theorem sampleFile_verdict_encode :
    sampleFile.WellFormed { strict := true } ∧
    ∃ c, (Class.decode { strict := true }).verdict (sampleFile.encode ++ [0xCA, 0xFE])
        = .ok (c, [0xCA, 0xFE]) ∧ sampleFile.Describes { strict := true } c :=
  ⟨wellFormed_sampleFile, ClassFile.verdict_encode _ sampleFile [0xCA, 0xFE] wellFormed_sampleFile⟩

end ClassOutline
