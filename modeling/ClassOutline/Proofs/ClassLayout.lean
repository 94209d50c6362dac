import ClassOutline.Proofs.AttributeGrammar
import ClassOutline.Proofs.ClassErrors
import ClassOutline.Proofs.ClassRoundTrip
import ClassOutline.Proofs.PoolLayout

/-!
The bytes that a class is read from.

A `Class.Layout` is a class file before anything is looked up: words, a pool, and attributes
that are still bytes. `Class.Layout.Spells` says which class it spells, and the decoder is
exactly the reader of these layouts: it accepts bytes if and only if they begin with a layout
that spells the class, and then it has taken the layout (`Class.takes_decode`,
`Class.Layout.Spells.reads`).

Since a layout still has its indices, it shows what each name of a class was read from. The
name of the class itself and that of its superclass come from an index other than 0 with a
class constant at it (`Pool.NamesClass`). In a list of classes, be it the interfaces of a class
or the exceptions of a method, index 0 is accepted as well, and read as the word for any class
(`Pool.ListsClass`).
-/

set_option autoImplicit false

namespace ClassOutline

open Decoder

/-! ## Members -/

/-- A field or a method in a class file, with its attributes as bytes. -/
structure MemberLayout where
  access : UInt16
  name : UInt16
  descriptor : UInt16
  attributes : List (List UInt8)

namespace MemberLayout

/-- The bytes of a member: three words and its attributes. -/
def bytes (m : MemberLayout) : List UInt8 :=
  bytes16 m.access ++ (bytes16 m.name ++ (bytes16 m.descriptor ++ countedBytes id m.attributes))

/-- The layout spells these parts. Bits of no flag are dropped. -/
structure Spells {k : AccessKind} (settings : Settings) (p : Pool) (m : MemberLayout)
    (parts : MemberParts k) : Prop where
  fewAttributes : m.attributes.length ≤ 65535
  access : parts.access = .ofBits k m.access
  name : p.utf8 m.name = .ok parts.name
  descriptor : p.utf8 m.descriptor = .ok parts.descriptor
  attributes : List.Forall₂ (Attribute.Spelled settings p.resolver) m.attributes parts.attributes

/-- The method declares no exceptions, or one of its attributes is the list of those that it
declares. -/
def Throws (p : Pool) (m : MemberLayout) (names : List String) : Prop :=
  names = [] ∨ ∃ index length classes,
    bytes16 index ++ (bytes32 length ++ countedBytes bytes16 classes) ∈ m.attributes ∧
    p.utf8 index = .ok AttributeKind.exceptions.name ∧
    List.Forall₂ p.ListsClass classes names

end MemberLayout

/-- Attributes have taken bytes that spell them. -/
theorem Attribute.takes_counted (settings : Settings) (r : Resolver) :
    Takes (counted (Attribute.decode settings r)) fun taken as =>
      ∃ parts, taken = countedBytes id parts ∧ parts.length ≤ 65535 ∧
        List.Forall₂ (Attribute.Spelled settings r) parts as := by
  refine Takes.counted ?_
  intro e c a next run
  obtain ⟨taken, unread, spelled⟩ := Attribute.takes_decode e c a next run
  exact ⟨taken, unread, taken, rfl, spelled⟩

/-- Bytes that spell attributes are read as these. -/
theorem Attribute.reads_counted {settings : Settings} {r : Resolver} {parts : List (List UInt8)}
    {as : List Attribute} (few : parts.length ≤ 65535)
    (spelled : List.Forall₂ (Attribute.Spelled settings r) parts as) :
    Reads (counted (Attribute.decode settings r)) (countedBytes id parts) as :=
  .counted few (spelled.imp fun _ _ h => h.reads_decode)

section Members

variable {k : AccessKind} {settings : Settings} {p : Pool}

/-- Flags come from any two bytes; what no flag stands for is dropped. -/
theorem Access.takes_decode : Takes (Access.decode k) fun taken access =>
    ∃ bits, taken = bytes16 bits ∧ access = .ofBits k bits := by
  intro e c access next run
  obtain ⟨bits, mid, read, made⟩ := bind_eq_done run
  cases made
  exact ⟨bytes16 bits, u16_eq_done read, bits, rfl, rfl⟩

/-- The parts of a member come from a layout that spells them. -/
theorem MemberParts.takes_decode :
    Takes (MemberParts.decode k p.resolver (Attribute.decode settings p.resolver))
      fun taken parts => ∃ m : MemberLayout, taken = m.bytes ∧ m.Spells settings p parts := by
  intro e c parts next run
  obtain ⟨access, c₁, flags, run⟩ := bind_eq_done run
  obtain ⟨nameIndex, c₂, first, run⟩ := bind_eq_done run
  obtain ⟨name, c₃, named, run⟩ := bind_eq_done run
  obtain ⟨descriptorIndex, c₄, second, run⟩ := bind_eq_done run
  obtain ⟨descriptor, c₅, described, run⟩ := bind_eq_done run
  obtain ⟨attributes, c₆, inside, made⟩ := bind_eq_done run
  cases made
  -- The words are read off where they stand, and the lookups take no bytes.
  obtain ⟨_, unread₁, bits, rfl, rfl⟩ := Access.takes_decode _ _ _ _ flags
  obtain ⟨nameAnswer, unread₃⟩ := p.resolver.ask_eq_done named
  obtain ⟨descriptorAnswer, unread₅⟩ := p.resolver.ask_eq_done described
  obtain ⟨_, unread₆, parts, rfl, few, spelled⟩ := Attribute.takes_counted _ _ _ _ _ _ inside
  refine ⟨_, ?_, ⟨bits, nameIndex, descriptorIndex, parts⟩, rfl,
    ⟨few, rfl, nameAnswer, descriptorAnswer, spelled⟩⟩
  rw [unread₁, u16_eq_done first, ← unread₃, u16_eq_done second, ← unread₅, unread₆,
    MemberLayout.bytes]
  simp only [List.append_assoc]

/-- A layout that spells the parts of a member is read as these parts. -/
theorem MemberLayout.Spells.reads {m : MemberLayout} {parts : MemberParts k}
    (h : m.Spells settings p parts) :
    Reads (MemberParts.decode k p.resolver (Attribute.decode settings p.resolver)) m.bytes
      parts := by
  have access : Reads (Access.decode k) (bytes16 m.access) parts.access :=
    h.access ▸ (Reads.u16 m.access).map (Access.ofBits k)
  exact MemberParts.reads_decode access h.name h.descriptor
    (Attribute.reads_counted h.fewAttributes h.attributes)

/-- What is made of the parts of a member comes from a layout. -/
theorem MemberParts.takes_decodeAs {α : Type} (make : MemberParts k → α)
    (ignored : String → List Attribute → List Event) :
    Takes (MemberParts.decodeAs make ignored p.resolver (Attribute.decode settings p.resolver))
      fun taken x => ∃ m : MemberLayout, taken = m.bytes ∧
        ∃ parts, m.Spells settings p parts ∧ x = make parts := by
  intro e c x next run
  obtain ⟨parts, mid, read, run⟩ := bind_eq_done run
  obtain ⟨_, stop, noted, made⟩ := bind_eq_done run
  cases noted
  cases made
  obtain ⟨taken, unread, m, rfl, spells⟩ := MemberParts.takes_decode _ _ _ _ read
  exact ⟨_, unread, m, rfl, parts, spells, rfl⟩

/-- A field comes from a layout, and so does a method. -/
theorem Field.takes_decodeWith :
    Takes (Field.decodeWith p.resolver (Attribute.decode settings p.resolver)) fun taken field =>
      ∃ m : MemberLayout, taken = m.bytes ∧
        ∃ parts : MemberParts .ofField, m.Spells settings p parts ∧ field = parts.field :=
  MemberParts.takes_decodeAs _ _

theorem Method.takes_decodeWith :
    Takes (Method.decodeWith p.resolver (Attribute.decode settings p.resolver)) fun taken method =>
      ∃ m : MemberLayout, taken = m.bytes ∧
        ∃ parts : MemberParts .ofMethod, m.Spells settings p parts ∧ method = parts.method :=
  MemberParts.takes_decodeAs _ _

end Members

/-! ## Exceptions of a method -/

/-- A list of exceptions is spelled by a list of classes. -/
theorem Attribute.Spelled.exceptions_inv {settings : Settings} {r : Resolver}
    {bytes : List UInt8} {names : List String}
    (spelled : Spelled settings r bytes (.exceptions names)) :
    ∃ index length classes,
      bytes = bytes16 index ++ (bytes32 length ++ countedBytes bytes16 classes) ∧
      r .utf8 index = .ok AttributeKind.exceptions.name ∧
      List.Forall₂ (fun index name => r .className index = .ok name) classes names := by
  cases spelled with
  | @framed index frame fields _ named payload =>
      cases payload with
      | skipped skips _ => cases skips
      | @exceptions length classes _ few answers =>
          exact ⟨index, length, classes, rfl, named, answers⟩

/-- The exceptions of a method are none, or are listed by one of its attributes. -/
theorem MemberLayout.Spells.throws {settings : Settings} {p : Pool} {m : MemberLayout}
    {parts : MemberParts .ofMethod} (h : m.Spells settings p parts) :
    m.Throws p parts.method.throws := by
  have carries : parts.method.Carries parts.attributes := Method.carries_foldl_apply _ _ _ _
  rcases carries.throws_eq_nil_or_mem with unlisted | listed
  · exact .inl unlisted
  · obtain ⟨part, inside, spelled⟩ := exists_of_mem_forall₂ h.attributes listed
    obtain ⟨index, length, classes, rfl, named, answers⟩ := spelled.exceptions_inv
    exact .inr ⟨index, length, classes, inside, named,
      answers.imp fun _ _ answer => Pool.className_eq_ok_iff.mp answer⟩

/-! ## Classes -/

namespace Class

/-- A class file with a pool and with attributes that are still bytes. -/
structure Layout where
  version : Version
  pool : Pool.Layout
  access : UInt16
  thisClass : UInt16
  superClass : UInt16
  interfaces : List UInt16
  fields : List MemberLayout
  methods : List MemberLayout
  attributes : List (List UInt8)

namespace Layout

/-- What stands behind the pool. -/
def bodyBytes (l : Layout) : List UInt8 :=
  bytes16 l.access ++ (bytes16 l.thisClass ++ (bytes16 l.superClass ++
    (countedBytes bytes16 l.interfaces ++ (countedBytes MemberLayout.bytes l.fields ++
      (countedBytes MemberLayout.bytes l.methods ++ countedBytes id l.attributes)))))

/-- The bytes of a class file, from the magic number on. -/
def bytes (l : Layout) : List UInt8 :=
  bytes32 classMagic ++ (l.version.encode ++ (l.pool.bytes ++ l.bodyBytes))

/-- The layout spells this class. -/
structure Spells (settings : Settings) (l : Layout) (c : Class) : Prop where
  version : c.version = l.version
  pool : c.pool = l.pool.pool
  access : c.access = .ofBits .ofClass l.access
  name : c.pool.NamesClass l.thisClass c.name
  superclass : l.superClass = 0 ∧ c.superclass = none ∨
    ∃ name, c.pool.NamesClass l.superClass name ∧ c.superclass = some name
  fewInterfaces : l.interfaces.length ≤ 65535
  interfaces : List.Forall₂ c.pool.ListsClass l.interfaces c.interfaces
  fewFields : l.fields.length ≤ 65535
  fields : List.Forall₂ (fun m field => ∃ parts : MemberParts .ofField,
    m.Spells settings c.pool parts ∧ field = parts.field) l.fields c.fields
  fewMethods : l.methods.length ≤ 65535
  methods : List.Forall₂ (fun m method => ∃ parts : MemberParts .ofMethod,
    m.Spells settings c.pool parts ∧ method = parts.method) l.methods c.methods
  fewAttributes : l.attributes.length ≤ 65535
  /-- the attributes take effect in order, on a class that had none -/
  attributes : ∃ as, List.Forall₂ (Attribute.Spelled settings c.pool.resolver) l.attributes as ∧
    c = as.foldl Class.apply c.bare

end Layout

section Names

variable {p : Pool}

/-- The name of a class comes from an index other than 0, with a class at it. -/
theorem takes_decodeName : Takes (decodeName p.resolver) fun taken name =>
    ∃ index, taken = bytes16 index ∧ p.NamesClass index name := by
  intro e c name next run
  obtain ⟨index, mid, read, run⟩ := bind_eq_done run
  by_cases zero : index = 0
  · rw [if_pos zero] at run
    cases run
  · rw [if_neg zero] at run
    obtain ⟨answer, unread⟩ := p.resolver.ask_eq_done run
    refine ⟨bytes16 index, ?_, index, rfl, (Pool.className_eq_ok_iff_namesClass zero).mp answer⟩
    rw [u16_eq_done read, unread]

/-- So does that of the superclass, but index 0 stands for none. -/
theorem takes_decodeSuperclass : Takes (decodeSuperclass p.resolver) fun taken superclass =>
    ∃ index, taken = bytes16 index ∧ (index = 0 ∧ superclass = none ∨
      ∃ name, p.NamesClass index name ∧ superclass = some name) := by
  intro e c superclass next run
  obtain ⟨index, mid, read, run⟩ := bind_eq_done run
  -- Index 0 is not looked up.
  by_cases zero : index = 0
  · rw [if_pos zero] at run
    cases run
    exact ⟨bytes16 index, u16_eq_done read, index, rfl, .inl ⟨zero, rfl⟩⟩
  · rw [if_neg zero] at run
    obtain ⟨name, stop, asked, made⟩ := bind_eq_done run
    cases made
    obtain ⟨answer, unread⟩ := p.resolver.ask_eq_done asked
    refine ⟨bytes16 index, ?_, index, rfl,
      .inr ⟨name, (Pool.className_eq_ok_iff_namesClass zero).mp answer, rfl⟩⟩
    rw [u16_eq_done read, unread]

/-- Here index 0 is not refused. -/
theorem takes_decodeInterface : Takes (decodeInterface p.resolver) fun taken name =>
    ∃ index, taken = bytes16 index ∧ p.ListsClass index name := by
  intro e c name next run
  obtain ⟨taken, unread, index, rfl, answer⟩ := Attribute.takes_lookup .className _ _ _ _ run
  exact ⟨_, unread, index, rfl, Pool.className_eq_ok_iff.mp answer⟩

end Names

theorem takes_decodeVersion : Takes Version.decode fun taken version => taken = version.encode := by
  intro e c version next run
  obtain ⟨minor, c₁, first, run⟩ := bind_eq_done run
  obtain ⟨major, c₂, second, made⟩ := bind_eq_done run
  cases made
  refine ⟨_, ?_, rfl⟩
  rw [u16_eq_done first, u16_eq_done second, Version.encode, List.append_assoc]

/-- Attributes of a class have an effect on three of its fields. -/
theorem exists_foldl_apply_eq (as : List Attribute) (c : Class) :
    ∃ sourceFile deprecated synthetic,
      as.foldl apply c = { c with sourceFile, deprecated, synthetic } := by
  have whole : ∀ c' : Class, c' = { c'.bare with
      sourceFile := c'.sourceFile, deprecated := c'.deprecated, synthetic := c'.synthetic } :=
    fun _ => rfl
  have result := whole (as.foldl apply c)
  rw [bare_foldl_apply] at result
  exact ⟨_, _, _, result⟩

/-- What is read behind a pool is spelled there. -/
theorem takes_decodeBody (settings : Settings) (version : Version) (pool : Pool.Layout) :
    Takes (decodeBody pool.pool.resolver (Attribute.decode settings pool.pool.resolver) version
      pool.pool) fun taken c => ∃ l : Layout, l.version = version ∧ l.pool = pool ∧
        taken = l.bodyBytes ∧ l.Spells settings c := by
  intro e c made next run
  obtain ⟨access, c₁, flags, run⟩ := bind_eq_done run
  obtain ⟨name, c₂, named, run⟩ := bind_eq_done run
  obtain ⟨superclass, c₃, above, run⟩ := bind_eq_done run
  obtain ⟨_, c₄, noted, run⟩ := bind_eq_done run
  obtain ⟨interfaces, c₅, listed, run⟩ := bind_eq_done run
  obtain ⟨fields, c₆, fielded, run⟩ := bind_eq_done run
  obtain ⟨methods, c₇, methoded, run⟩ := bind_eq_done run
  obtain ⟨attributes, c₈, inside, run⟩ := bind_eq_done run
  obtain ⟨_, c₉, ignored, run⟩ := bind_eq_done run
  cases noted
  cases ignored
  cases run
  -- Each stage says what it took, and the layout is these pieces in order.
  obtain ⟨_, unread₁, bits, rfl, rfl⟩ := Access.takes_decode _ _ _ _ flags
  obtain ⟨_, unread₂, this, rfl, isClass⟩ := takes_decodeName _ _ _ _ named
  obtain ⟨_, unread₃, super, rfl, isSuper⟩ := takes_decodeSuperclass _ _ _ _ above
  obtain ⟨_, unread₅, indices, rfl, few₅, areListed⟩ :=
    takes_decodeInterface.counted _ _ _ _ listed
  obtain ⟨_, unread₆, fs, rfl, few₆, areFields⟩ := Field.takes_decodeWith.counted _ _ _ _ fielded
  obtain ⟨_, unread₇, ms, rfl, few₇, areMethods⟩ :=
    Method.takes_decodeWith.counted _ _ _ _ methoded
  obtain ⟨_, unread₈, parts, rfl, few₈, spelled⟩ := Attribute.takes_counted _ _ _ _ _ _ inside
  refine ⟨_, ?_, ⟨version, pool, bits, this, super, indices, fs, ms, parts⟩, rfl, rfl, rfl, ?_⟩
  · rw [unread₁, unread₂, unread₃, unread₅, unread₆, unread₇, unread₈, Layout.bodyBytes]
    simp only [List.append_assoc]
  · -- The attributes of the class touch nothing that the layout speaks of by itself.
    obtain ⟨sourceFile, deprecated, synthetic, result⟩ := exists_foldl_apply_eq attributes
      { version, pool := pool.pool, access := .ofBits .ofClass bits, name, superclass, interfaces,
        fields, methods }
    rw [result]
    exact ⟨rfl, rfl, rfl, isClass, isSuper, few₅, areListed, few₆, areFields, few₇, areMethods,
      few₈, attributes, spelled, result.symm⟩

/-- **Classes come from layouts.** -/
theorem takes_decode (settings : Settings) : Takes (Class.decode settings) fun taken c =>
    ∃ l : Layout, taken = l.bytes ∧ l.Spells settings c := by
  rw [Class.decode_eq]
  intro e c made next run
  obtain ⟨_, c₁, magic, run⟩ := bind_eq_done run
  obtain ⟨version, c₂, versioned, run⟩ := bind_eq_done run
  obtain ⟨pool, c₃, filled, run⟩ := bind_eq_done run
  -- Magic number, version and pool have taken their bytes, and the rest is a body for that pool.
  obtain ⟨unread₁, -⟩ := decodeMagic_eq_done magic
  obtain ⟨_, unread₂, rfl⟩ := takes_decodeVersion _ _ _ _ versioned
  obtain ⟨pool, rfl, unread₃⟩ := Pool.decode_eq_done filled
  obtain ⟨_, unread, l, rfl, rfl, rfl, spells⟩ := takes_decodeBody settings _ pool _ _ _ _ run
  refine ⟨_, ?_, l, rfl, spells⟩
  rw [unread₁, unread₂, unread₃, unread, Layout.bytes]
  simp only [List.append_assoc]

/-- A layout that spells a class is read as that class. -/
theorem Layout.Spells.reads {settings : Settings} {l : Layout} {c : Class}
    (h : l.Spells settings c) : Reads (Class.decode settings) l.bytes c := by
  have readInterfaces : List.Forall₂ (fun index name =>
      Reads (decodeInterface c.pool.resolver) (bytes16 index) name) l.interfaces c.interfaces :=
    h.interfaces.imp fun _ _ lists => Reads.lookup (Pool.className_eq_ok_iff.mpr lists)
  have readFields : List.Forall₂ (fun m field => Reads (Field.decodeWith c.pool.resolver
      (Attribute.decode settings c.pool.resolver)) (MemberLayout.bytes m) field)
      l.fields c.fields := by
    refine h.fields.imp ?_
    rintro m field ⟨parts, spells, rfl⟩
    exact MemberParts.reads_decodeAs spells.reads _ _
  have readMethods : List.Forall₂ (fun m method => Reads (Method.decodeWith c.pool.resolver
      (Attribute.decode settings c.pool.resolver)) (MemberLayout.bytes m) method)
      l.methods c.methods := by
    refine h.methods.imp ?_
    rintro m method ⟨parts, spells, rfl⟩
    exact MemberParts.reads_decodeAs spells.reads _ _
  obtain ⟨attributes, spelled, effect⟩ := h.attributes
  have readName := reads_decodeName h.name.1 (r := c.pool.resolver)
    ((Pool.className_eq_ok_iff_namesClass h.name.1).mpr h.name)
  have readPool := l.pool.reads_decode
  rw [← h.pool] at readPool
  -- The class is what its attributes make of the parts in front of them.
  have value : attributes.foldl apply { c.bare with
      version := l.version, access := .ofBits .ofClass l.access } = c := by
    rw [← h.version, ← h.access]
    exact effect.symm
  rw [Class.decode_eq, ← value]
  refine reads_decodeMagic.bind ((Version.reads_decode l.version).bind (readPool.bind ?_))
  exact reads_decodeBody ((Reads.u16 l.access).map (Access.ofBits .ofClass)) readName
    (reads_decodeSuperclass h.superclass) (.counted h.fewInterfaces readInterfaces)
    (.counted h.fewFields readFields) (.counted h.fewMethods readMethods)
    (Attribute.reads_counted h.fewAttributes spelled)

/-- **What the names of classes are read from.** A class is read from the bytes of a layout that
spells it, and from no others. So the name of a class and that of its superclass come from
class constants, while in the list of its interfaces and in the exceptions of its methods
index 0 is accepted too, and stands there as the word for any class. -/
theorem accepted_iff_spelled (settings : Settings) (bytes unread : List UInt8) (c : Class) :
    (Class.decode settings).verdict bytes = .ok (c, unread) ↔
      ∃ l : Layout, bytes = l.bytes ++ unread ∧ l.Spells settings c ∧
        List.Forall₂ (fun m method => m.Throws c.pool method.throws) l.methods c.methods := by
  constructor
  · intro accepted
    obtain ⟨journal, run⟩ := run_of_verdict accepted
    obtain ⟨_, front, l, rfl, spells⟩ := takes_decode settings _ _ _ _ run
    refine ⟨l, front, spells, spells.methods.imp ?_⟩
    rintro m method ⟨parts, spells, rfl⟩
    exact spells.throws
  · rintro ⟨l, rfl, spells, -⟩
    exact spells.reads.verdict_append unread

/-- A class `A` with an interface and a method `void m()` with an exception, both at index 0. -/
def anySample : List UInt8 :=
  [0xCA, 0xFE, 0xBA, 0xBE, 0, 0, 0, 52, 0, 6, 1, 0, 1, 65, 7, 0, 1, 1, 0, 1, 109,
    1, 0, 3, 40, 41, 86, 1, 0, 10, 69, 120, 99, 101, 112, 116, 105, 111, 110, 115,
    0, 0x21, 0, 2, 0, 0, 0, 1, 0, 0, 0, 0, 0, 1, 0, 1, 0, 3, 0, 4, 0, 1,
    0, 5, 0, 0, 0, 4, 0, 1, 0, 0, 0, 0]

/-- It is read in spite of that, and any class is its interface and its exception. -/
theorem anySample_accepted : ∃ c, (Class.decode {}).verdict anySample = .ok (c, []) ∧
    c.interfaces = ["any"] ∧ c.methods.map Method.throws = [["any"]] := by
  have seen : ((Class.decode {}).verdict anySample).toOption.map
      (fun (c, unread) => (c.interfaces, c.methods.map Method.throws, unread))
      = some (["any"], [["any"]], []) := by decide +kernel
  cases verdict : (Class.decode {}).verdict anySample with
  | error error =>
      rw [verdict] at seen
      cases seen
  | ok result =>
      rw [verdict] at seen
      obtain ⟨c, unread⟩ := result
      simp only [Except.toOption, Option.map_some, Option.some.injEq, Prod.mk.injEq] at seen
      obtain ⟨interfaces, throws, rfl⟩ := seen
      exact ⟨c, rfl, interfaces, throws⟩

end Class

end ClassOutline
