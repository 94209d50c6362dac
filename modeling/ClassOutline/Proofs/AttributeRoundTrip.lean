import ClassOutline.Attribute.Record
import ClassOutline.Proofs.ExactRead
import ClassOutline.Proofs.PoolGrowth

/-!
Attributes survive being written and read, however deep they nest.

To write an attribute is to push its name to the pool and to frame its payload; the
attributes of a method body go first, so a name is looked up in a pool that has grown
since it was pushed. The induction therefore runs with two pools: the one that an
attribute is written with, and any later one that it is read with. What was pushed is
found in both (`Pool.utf8_pushUtf8`), and this is the only thing said about names.

What the reader should make of an attribute is `IndexedAttribute.resolved?`, which
puts the answers of a resolver in the place of indices and knows nothing of bytes.
The reader makes exactly that (`exists_reads_toRecord`), and there is such an attribute
as soon as every index has an answer.
-/

set_option autoImplicit false

namespace ClassOutline

open Decoder

/-! ## What is written -/

mutual

/-- Of the seven kinds that are written by name, down to the innermost attribute, and
with lists no longer than their counts can say. -/
def IndexedAttribute.Writable : IndexedAttribute → Prop
  | .constantValue _ | .sourceFile _ | .deprecated | .synthetic => True
  | .exceptions classes => classes.length ≤ 65535
  | .lineNumberTable lines => lines.length ≤ 65535
  | .code _ _ _ handlers attributes =>
      handlers.length ≤ 65535 ∧ attributes.length ≤ 65535 ∧ WritableAll attributes
  | .framed _ => False

/-- The same of every attribute of a list. -/
def IndexedAttribute.WritableAll : List IndexedAttribute → Prop
  | [] => True
  | first :: rest => first.Writable ∧ WritableAll rest

end

mutual

/-- The questions that an attribute leaves to the pool, one for each index in it. A
handler that catches everything asks nothing. -/
def IndexedAttribute.lookups : IndexedAttribute → List (Lookup × UInt16)
  | .constantValue value => [(.literal, value)]
  | .sourceFile name => [(.utf8, name)]
  | .exceptions classes => classes.map fun index => (.className, index)
  | .deprecated | .synthetic | .lineNumberTable _ | .framed _ => []
  | .code _ _ _ handlers attributes =>
      (handlers.filter (·.catchType ≠ 0)).map (fun h => (.className, h.catchType))
        ++ lookupsAll attributes

/-- The questions of a list of attributes. -/
def IndexedAttribute.lookupsAll : List IndexedAttribute → List (Lookup × UInt16)
  | [] => []
  | first :: rest => first.lookups ++ lookupsAll rest

end

/-- A resolver has an answer to each of the questions. -/
def Resolver.Answers (r : Resolver) (questions : List (Lookup × UInt16)) : Prop :=
  ∀ question index, (question, index) ∈ questions → ∃ text, r question index = .ok text

/-! ## What should be read -/

/-- A handler with the name of what it catches; 0 catches everything. -/
def Handler.resolved? (r : Resolver) (h : Handler UInt16) : Option (Handler String) :=
  let name := if h.catchType = 0 then some anyClass else (r .className h.catchType).toOption
  name.map fun catchType =>
    { startPc := h.startPc, endPc := h.endPc, handlerPc := h.handlerPc, catchType }

mutual

/-- An attribute with the answers in the place of its indices. -/
def IndexedAttribute.resolved? (r : Resolver) : IndexedAttribute → Option Attribute
  | .constantValue value => (r .literal value).toOption.map .constantValue
  | .sourceFile name => (r .utf8 name).toOption.map .sourceFile
  | .exceptions classes =>
      (classes.mapM fun index => (r .className index).toOption).map .exceptions
  | .deprecated => some .deprecated
  | .synthetic => some .synthetic
  | .lineNumberTable _ => some .lineNumberTable
  | .code maxStack maxLocals bytecode handlers attributes =>
      (handlers.mapM (Handler.resolved? r)).bind fun handlers =>
        (resolvedAll? r attributes).map fun attributes =>
          .code { maxStack, maxLocals, bytecode, handlers, attributes }
  | .framed _ => none

/-- A list of attributes, each resolved. -/
def IndexedAttribute.resolvedAll? (r : Resolver) :
    List IndexedAttribute → Option (List Attribute)
  | [] => some []
  | first :: rest =>
      (first.resolved? r).bind fun a => (resolvedAll? r rest).map fun more => a :: more

end

/-! ## Lists, item by item -/

/-- Items that all have a value have a list of values. -/
theorem exists_mapM_eq_some {α β : Type} {g : α → Option β} {P : α → β → Prop} {items : List α}
    (h : ∀ x ∈ items, ∃ y, g x = some y ∧ P x y) :
    ∃ values, items.mapM g = some values ∧ List.Forall₂ P items values := by
  obtain ⟨values, both⟩ := exists_forall₂ h
  refine ⟨values, ?_, both.imp fun _ _ hy => hy.2⟩
  induction both with
  | nil => rfl
  | cons first _ ih =>
      rw [List.mapM_cons, first.1, ih fun x hx => h x (by simp [hx])]
      rfl

/-! ## Frames -/

/-- The name of a kind is known as the name of that kind. -/
theorem AttributeKind.ofName?_name (kind : AttributeKind) : ofName? kind.name = some kind := by
  cases kind <;> rfl

/-- No other name is. -/
theorem AttributeKind.name_of_ofName? {name : String} {kind : AttributeKind}
    (known : ofName? name = some kind) : kind.name = name := by
  have found := List.find?_some known
  exact eq_of_beq found

namespace Attribute

variable {settings : Settings} {r : Resolver}

/-- A frame is read as its payload is, once its name is known. -/
theorem reads_decode_record {kind : AttributeKind} {record : Record} {a : Attribute}
    (name : r .utf8 record.name = .ok kind.name)
    (payload : Reads (decodeKnown settings r (decode settings r)
      (UInt32.ofNat record.info.length) kind) record.info a) :
    Reads (decode settings r) record.encode a := by
  have framed : Reads (Frame.decode r) (bytes16 record.name ++ bigEndian 4 record.info.length)
      ⟨kind.name, UInt32.ofNat record.info.length⟩ :=
    (Reads.u16 record.name).bind (.after (.ask name)
      ((Reads.length32 record.info.length).before (.after (.note _) (.pure _))))
  rw [decode_eq_decodeWith, Record.encode]
  refine framed.bind ?_
  rw [decodePayload, AttributeKind.ofName?_name]
  exact payload

/-- A frame whose name has just been pushed, read with a later pool. -/
theorem reads_decode_named {p q : Pool} {kind : AttributeKind} {info : List UInt8} {a : Attribute}
    (later : Pool.Extends q (p.named kind info).2) (small : (p.named kind info).2.size ≤ 65536)
    (payload : Reads (decodeKnown settings q.resolver (decode settings q.resolver)
      (UInt32.ofNat info.length) kind) info a) :
    Reads (decode settings q.resolver) (p.named kind info).1.encode a := by
  -- The name took a slot of its own, so its index was not cut to sixteen bits.
  have room : p.size < 65536 := by
    have grown : (p.pushUtf8 kind.name).2.size ≤ 65536 := small
    rw [Pool.pushUtf8, Pool.size_push] at grown
    have wide := (Constant.utf8 kind.name).width_pos
    omega
  exact reads_decode_record (Pool.utf8_pushUtf8 room later) payload

/-! ## Payloads

Each is read by its own fields; only a skipped one is measured by the length in its
frame. -/

/-- A marker has an empty payload, which strict mode accepts as well. -/
theorem reads_marker {kind : AttributeKind} {marker : Attribute} :
    Reads (decodeMarker settings kind (UInt32.ofNat 0) marker) [] marker := by
  refine .after (.skip rfl) ?_
  rw [if_pos (show UInt32.ofNat 0 = 0 from rfl)]
  exact .pure marker

/-- A debug table is skipped, whatever it holds. -/
theorem reads_skipped {info : List UInt8} (short : info.length < UInt32.size) (a : Attribute) :
    Reads (do skip (UInt32.ofNat info.length).toNat; pure a) info a := by
  have length : info.length = (UInt32.ofNat info.length).toNat :=
    (UInt32.toNat_ofNat_of_lt' short).symm
  exact (Reads.skip length).map fun _ => a

/-- An index, the answer to it, and what is made of the answer. -/
theorem reads_lookup_map {question : Lookup} {index : UInt16} {text : String}
    (answer : r question index = .ok text) (make : String → Attribute) :
    Reads (do let index ← u16; let text ← r.ask question index; pure (make text))
      (bytes16 index) (make text) := by
  have h := (Reads.lookup answer).map make
  rwa [bind_assoc] at h

end Attribute

/-- What a handler catches is looked up, except that 0 is everything. -/
theorem Handler.reads_decodeCatchType {r : Resolver} {index : UInt16} {name : String}
    (caught : (if index = 0 then some anyClass else (r .className index).toOption) = some name) :
    Reads (decodeCatchType r) (bytes16 index) name := by
  refine (Reads.u16 index).before ?_
  -- Index 0 is any class without a question, and for any other index the answer is the name.
  by_cases any : index = 0
  · rw [if_pos any] at caught ⊢
    cases caught
    exact .pure anyClass
  · rw [if_neg any] at caught ⊢
    cases answer : r .className index with
    | error error =>
        rw [answer] at caught
        cases caught
    | ok text =>
        rw [answer] at caught
        cases caught
        exact .ask answer

/-- A handler is read back with the name of what it catches. -/
theorem Handler.exists_reads_decode {r : Resolver} {h : Handler UInt16}
    (answers : h.catchType ≠ 0 → ∃ text, r .className h.catchType = .ok text) :
    ∃ h', h.resolved? r = some h' ∧ Reads (Handler.decode r) h.encode h' := by
  obtain ⟨name, caught⟩ : ∃ name, (if h.catchType = 0 then some anyClass
      else (r .className h.catchType).toOption) = some name := by
    by_cases any : h.catchType = 0
    · exact ⟨anyClass, if_pos any⟩
    · obtain ⟨text, answer⟩ := answers any
      exact ⟨text, by rw [if_neg any, answer]; rfl⟩
  refine ⟨⟨h.startPc, h.endPc, h.handlerPc, name⟩, by rw [resolved?, caught]; rfl, ?_⟩
  rw [Handler.encode, List.append_assoc, List.append_assoc]
  exact (Reads.u16 h.startPc).bind ((Reads.u16 h.endPc).bind ((Reads.u16 h.handlerPc).bind
    ((reads_decodeCatchType caught).map (Handler.mk h.startPc h.endPc h.handlerPc))))

/-- A method body is read back if its handlers and its attributes are. -/
theorem Code.reads_decodeWith {r : Resolver} {nested : Decoder Attribute}
    {code : Code UInt16 Record} {handlers : List (Handler String)} {attributes : List Attribute}
    (bytecode : code.bytecode.length < UInt32.size) (fewHandlers : code.handlers.length ≤ 65535)
    (fewAttributes : code.attributes.length ≤ 65535)
    (readHandlers : List.Forall₂ (fun h h' => Reads (Handler.decode r) (Handler.encode h) h')
      code.handlers handlers)
    (readAttributes : List.Forall₂ (fun record a => Reads nested (Record.encode record) a)
      code.attributes attributes) :
    Reads (Code.decodeWith r nested) code.encode
      { maxStack := code.maxStack, maxLocals := code.maxLocals, bytecode := code.bytecode,
        handlers, attributes } := by
  have length : code.bytecode.length = (UInt32.ofNat code.bytecode.length).toNat :=
    (UInt32.toNat_ofNat_of_lt' bytecode).symm
  simp only [Code.encode, List.append_assoc]
  exact (Reads.u16 code.maxStack).bind ((Reads.u16 code.maxLocals).bind
    ((Reads.length32 _).bind ((Reads.take length).bind
    ((Reads.counted fewHandlers readHandlers).bind
    ((Reads.counted fewAttributes readAttributes).map _)))))

/-! ## Sizes and pools -/

/-- A body is longer than its bytecode. -/
theorem Code.bytecode_length_le (code : Code UInt16 Record) :
    code.bytecode.length ≤ code.encode.length := by
  simp only [Code.encode, List.length_append]
  omega

/-- A body is longer than the payload of any attribute in it. -/
theorem Code.info_length_le {code : Code UInt16 Record} {record : Record}
    (inside : record ∈ code.attributes) : record.info.length ≤ code.encode.length := by
  obtain ⟨before, behind, split⟩ := List.append_of_mem inside
  simp only [Code.encode, countedBytes, split, List.flatMap_append, List.flatMap_cons,
    Record.encode, List.length_append]
  omega

namespace IndexedAttribute

/-- The pool that a record leaves is the one it has found, and more. -/
theorem extends_named (p : Pool) (kind : AttributeKind) (info : List UInt8) :
    Pool.Extends (p.named kind info).2 p :=
  Pool.extends_push p _

/-- A method body writes its attributes first, so their names come first in the pool. -/
theorem toRecord_code (p : Pool) (maxStack maxLocals : UInt16) (bytecode : List UInt8)
    (handlers : List (Handler UInt16)) (attributes : List IndexedAttribute) :
    (code maxStack maxLocals bytecode handlers attributes).toRecord p
      = (toRecords p attributes).2.named .code (Code.encode
          { maxStack, maxLocals, bytecode, handlers,
            attributes := (toRecords p attributes).1 }) := by
  rw [toRecord]

/-- The second record is written into the pool that the first leaves. -/
theorem toRecords_cons (p : Pool) (first : IndexedAttribute) (rest : List IndexedAttribute) :
    toRecords p (first :: rest)
      = ((first.toRecord p).1 :: (toRecords (first.toRecord p).2 rest).1,
          (toRecords (first.toRecord p).2 rest).2) := by
  rw [toRecords]

theorem length_toRecords (p : Pool) (attributes : List IndexedAttribute) :
    (toRecords p attributes).1.length = attributes.length := by
  induction attributes generalizing p with
  | nil => rfl
  | cons first rest ih => rw [toRecords_cons, List.length_cons, List.length_cons, ih]

mutual

/-- Writing an attribute only adds to the pool. -/
theorem extends_toRecord (p : Pool) : ∀ w : IndexedAttribute, Pool.Extends (w.toRecord p).2 p
  | .constantValue _ => extends_named p _ _
  | .sourceFile _ => extends_named p _ _
  | .exceptions _ => extends_named p _ _
  | .deprecated => extends_named p _ _
  | .synthetic => extends_named p _ _
  | .lineNumberTable _ => extends_named p _ _
  | .code _ _ _ _ attributes => by
      rw [toRecord_code]
      exact (extends_named _ _ _).trans (extends_toRecords p attributes)
  | .framed _ => .refl p

/-- So does writing a list of them. -/
theorem extends_toRecords (p : Pool) : ∀ ws : List IndexedAttribute,
    Pool.Extends (toRecords p ws).2 p
  | [] => .refl p
  | first :: rest => by
      rw [toRecords_cons]
      exact (extends_toRecords _ rest).trans (extends_toRecord p first)

end

/-! ## The round trip

Attributes and lists of attributes are taken together. The pool `q` they are read with
is fixed throughout; the pool `p` they are written with changes from one to the next. -/

mutual

/-- An attribute is read back with any later pool in which all of its indices have an
answer. -/
theorem exists_reads_toRecord (settings : Settings) (q : Pool) :
    ∀ (w : IndexedAttribute) (p : Pool), w.Writable → Pool.Extends q (w.toRecord p).2 →
      (w.toRecord p).2.size ≤ 65536 → (w.toRecord p).1.info.length < UInt32.size →
      q.resolver.Answers w.lookups →
      ∃ a, w.resolved? q.resolver = some a ∧
        Reads (Attribute.decode settings q.resolver) (w.toRecord p).1.encode a
  | .constantValue value, p, _, later, small, _, answers => by
      obtain ⟨text, answer⟩ := answers .literal value (by simp [lookups])
      refine ⟨.constantValue text, by rw [resolved?, answer]; rfl, ?_⟩
      exact Attribute.reads_decode_named later small
        (Attribute.reads_lookup_map answer .constantValue)
  | .sourceFile name, p, _, later, small, _, answers => by
      obtain ⟨text, answer⟩ := answers .utf8 name (by simp [lookups])
      refine ⟨.sourceFile text, by rw [resolved?, answer]; rfl, ?_⟩
      exact Attribute.reads_decode_named later small
        (Attribute.reads_lookup_map answer .sourceFile)
  | .exceptions classes, p, few, later, small, _, answers => by
      have named : ∀ index ∈ classes, ∃ name,
          (q.resolver .className index).toOption = some name ∧
            Reads (do let index ← u16; q.resolver.ask .className index) (bytes16 index) name := by
        intro index inside
        obtain ⟨name, answer⟩ := answers .className index (by simp [lookups, inside])
        exact ⟨name, by rw [answer]; rfl, Reads.lookup answer⟩
      obtain ⟨names, known, read⟩ := exists_mapM_eq_some named
      refine ⟨.exceptions names, by rw [resolved?, known]; rfl, ?_⟩
      exact Attribute.reads_decode_named later small ((Reads.counted few read).map _)
  | .deprecated, p, _, later, small, _, _ =>
      ⟨.deprecated, rfl, Attribute.reads_decode_named later small Attribute.reads_marker⟩
  | .synthetic, p, _, later, small, _, _ =>
      ⟨.synthetic, rfl, Attribute.reads_decode_named later small Attribute.reads_marker⟩
  | .lineNumberTable lines, p, _, later, small, short, _ =>
      ⟨.lineNumberTable, rfl,
        Attribute.reads_decode_named later small (Attribute.reads_skipped short _)⟩
  | .code maxStack maxLocals bytecode handlers attributes, p, writable, later, small, short,
      answers => by
      rw [toRecord_code] at later small short ⊢
      obtain ⟨fewHandlers, fewAttributes, writableAll⟩ := writable
      rw [lookups] at answers
      -- The handlers ask the pool about what they catch, and the attributes the rest.
      have caught : ∀ h ∈ handlers, ∃ h', h.resolved? q.resolver = some h' ∧
          Reads (Handler.decode q.resolver) h.encode h' := by
        intro h inside
        refine Handler.exists_reads_decode fun present => answers .className h.catchType ?_
        rw [List.mem_append]
        exact .inl (List.mem_map.mpr ⟨h, by simp [inside, present], rfl⟩)
      obtain ⟨handlers', knownHandlers, readHandlers⟩ := exists_mapM_eq_some caught
      -- The name of the body is pushed behind all that its attributes pushed.
      have grown := (extends_named (toRecords p attributes).2 .code (Code.encode
        { maxStack, maxLocals, bytecode, handlers, attributes := (toRecords p attributes).1 }))
      obtain ⟨attributes', knownAttributes, readAttributes⟩ :=
        exists_reads_toRecords settings q attributes p writableAll (later.trans grown)
          (Nat.le_trans grown.size_le small)
          (fun record inside => Nat.lt_of_le_of_lt (Code.info_length_le inside) short)
          (fun question index inside => answers question index (List.mem_append_right _ inside))
      refine ⟨.code ⟨maxStack, maxLocals, bytecode, handlers', attributes'⟩, ?_, ?_⟩
      · rw [resolved?, knownHandlers, knownAttributes]
        rfl
      · have length := length_toRecords p attributes
        have body := Code.reads_decodeWith
          (Nat.lt_of_le_of_lt (Code.bytecode_length_le _) short) fewHandlers
          (by rw [length]; exact fewAttributes) readHandlers readAttributes
        exact Attribute.reads_decode_named later small (body.map Attribute.code)

/-- So is a list of attributes, written one after the other. -/
theorem exists_reads_toRecords (settings : Settings) (q : Pool) :
    ∀ (ws : List IndexedAttribute) (p : Pool), WritableAll ws →
      Pool.Extends q (toRecords p ws).2 → (toRecords p ws).2.size ≤ 65536 →
      (∀ record ∈ (toRecords p ws).1, record.info.length < UInt32.size) →
      q.resolver.Answers (lookupsAll ws) →
      ∃ as, resolvedAll? q.resolver ws = some as ∧
        List.Forall₂ (fun record a =>
          Reads (Attribute.decode settings q.resolver) (Record.encode record) a)
          (toRecords p ws).1 as
  | [], _, _, _, _, _, _ => ⟨[], rfl, .nil⟩
  | first :: rest, p, writable, later, small, short, answers => by
      rw [toRecords_cons] at later small short ⊢
      rw [lookupsAll] at answers
      -- The first record finds its constants in the pool of the second, which only grew.
      have grown := extends_toRecords (first.toRecord p).2 rest
      obtain ⟨a, known, read⟩ := exists_reads_toRecord settings q first p writable.1
        (later.trans grown) (Nat.le_trans grown.size_le small) (short _ (List.mem_cons_self ..))
        (fun question index inside => answers question index (List.mem_append_left _ inside))
      obtain ⟨as, knownAll, readAll⟩ := exists_reads_toRecords settings q rest _ writable.2
        later small (fun record inside => short record (List.mem_cons_of_mem _ inside))
        (fun question index inside => answers question index (List.mem_append_right _ inside))
      refine ⟨a :: as, ?_, .cons read readAll⟩
      rw [resolvedAll?, known, knownAll]
      rfl

end

/-- **Attributes survive at any depth.** Write an attribute of the seven kinds, with
attributes of these kinds nested in it to any depth, and read the record with the pool
that it left, in front of any bytes and with any settings. If the pool did not grow
beyond 65536 slots, no list is longer than its count can say, the payload is shorter
than 2^32 bytes, and every index has an answer in the final pool, then the reader gives
back the attribute with all of its indices resolved, and leaves exactly these bytes.

Pools only grow and a payload contains those nested in it, so the bounds on the last
pool and the outermost payload are bounds on all of them. -/
theorem verdict_toRecord (settings : Settings) (p : Pool) (w : IndexedAttribute)
    (rest : List UInt8) (writable : w.Writable) (small : (w.toRecord p).2.size ≤ 65536)
    (short : (w.toRecord p).1.info.length < UInt32.size)
    (answers : (w.toRecord p).2.resolver.Answers w.lookups) :
    ∃ a, w.resolved? (w.toRecord p).2.resolver = some a ∧
      (Attribute.decode settings (w.toRecord p).2.resolver).verdict
        ((w.toRecord p).1.encode ++ rest) = .ok (a, rest) := by
  obtain ⟨a, known, read⟩ :=
    exists_reads_toRecord settings _ w p writable (.refl _) small short answers
  exact ⟨a, known, read.verdict_append rest⟩

/-- A body with two handlers, a table that is skipped, and a body inside it that has
attributes of its own. -/
def nestedSample : IndexedAttribute :=
  .code 2 1 [0xB1] [⟨0, 1, 0, 0⟩, ⟨0, 1, 0, 2⟩]
    [.lineNumberTable [(0, 7)], .code 0 0 [] [] [.exceptions [2], .deprecated], .constantValue 3]

/-- The pool that the sample is written with. -/
def nestedSamplePool : Pool := .ofConstants [.utf8 "a/B", .classRef 1, .integer 7]

theorem nestedSample_verdict_toRecord :
    nestedSample.Writable ∧ (nestedSample.toRecord nestedSamplePool).2.size ≤ 65536 ∧
    (nestedSample.toRecord nestedSamplePool).1.info.length < UInt32.size ∧
    (nestedSample.toRecord nestedSamplePool).2.resolver.Answers nestedSample.lookups ∧
    ∃ a, nestedSample.resolved? (nestedSample.toRecord nestedSamplePool).2.resolver = some a ∧
      (Attribute.decode { strict := true }
        (nestedSample.toRecord nestedSamplePool).2.resolver).verdict
        ((nestedSample.toRecord nestedSamplePool).1.encode ++ [0xCA]) = .ok (a, [0xCA]) := by
  have writable : nestedSample.Writable := by
    simp [nestedSample, Writable, WritableAll]
  have small : (nestedSample.toRecord nestedSamplePool).2.size ≤ 65536 := by decide
  have short : (nestedSample.toRecord nestedSamplePool).1.info.length < UInt32.size := by decide
  have answers : (nestedSample.toRecord nestedSamplePool).2.resolver.Answers
      nestedSample.lookups := by
    intro question index inside
    have asked : (question, index) = (.className, 2) ∨ (question, index) = (.literal, 3) := by
      simpa [nestedSample, lookups, lookupsAll] using inside
    rcases asked with asked | asked
    · cases asked
      exact ⟨"a.B", rfl⟩
    · cases asked
      exact ⟨"7", rfl⟩
  exact ⟨writable, small, short, answers,
    verdict_toRecord _ nestedSamplePool nestedSample [0xCA] writable small short answers⟩

end IndexedAttribute

end ClassOutline
