import ClassOutline.Proofs.AttributeFrame
import ClassOutline.Proofs.AttributeRoundTrip

/-!
The bytes that an attribute is read from.

`Spelled` is the grammar of attributes, one rule for each kind of payload, and the decoder
is exactly its reader: it comes to an end with an attribute if and only if the stream
begins with bytes that spell the attribute, and then it has taken these bytes
(`takes_decode`, `Spelled.reads_decode`). A payload is a rule about one level
(`Payload`), with the attributes inside a method body left to a parameter, as it is with
the decoder; the grammar ties the knot by induction.

The rules show what the length in a frame is for. Where a payload is skipped the length
measures it. Where it is interpreted the length does not occur, and the payload ends where
its last field does. So only a record whose payload is just what its rule asks for is
taken as a whole (`Record.Filled`), and the read of an attribute that is interpreted may
leave bytes of its own record behind, or go beyond it.
-/

set_option autoImplicit false

namespace ClassOutline

open Decoder

/-! ## Handlers -/

/-- A handler was read from the four words of an entry, whose last one resolves to what is caught.
-/
theorem Handler.takes_decode (r : Resolver) : Takes (Handler.decode r) fun taken h =>
    ∃ h' : Handler UInt16, taken = h'.encode ∧ h'.resolved? r = some h := by
  intro e c h next run
  obtain ⟨startPc, c₁, first, run⟩ := bind_eq_done run
  obtain ⟨endPc, c₂, second, run⟩ := bind_eq_done run
  obtain ⟨handlerPc, c₃, third, run⟩ := bind_eq_done run
  obtain ⟨name, c₄, caught, made⟩ := bind_eq_done run
  obtain ⟨index, c₅, read, run⟩ := bind_eq_done caught
  have front : c.unread = bytes16 startPc ++ (bytes16 endPc ++ (bytes16 handlerPc ++
      (bytes16 index ++ c₅.unread))) := by
    rw [u16_eq_done first, u16_eq_done second, u16_eq_done third, u16_eq_done read]
  cases made
  -- Index 0 is not looked up, and of any other index the name is the answer.
  have resolved : (if index = 0 then some anyClass else (r .className index).toOption) = some name
      ∧ next.unread = c₅.unread := by
    by_cases any : index = 0
    · rw [if_pos any] at run ⊢
      cases run
      exact ⟨rfl, rfl⟩
    · rw [if_neg any] at run ⊢
      obtain ⟨answer, unread⟩ := r.ask_eq_done run
      rw [answer]
      exact ⟨rfl, unread⟩
  refine ⟨_, ?_, ⟨startPc, endPc, handlerPc, index⟩, rfl, ?_⟩
  · rw [front, resolved.2, Handler.encode]
    simp only [List.append_assoc]
  · rw [Handler.resolved?, resolved.1]
    rfl

/-- An entry that resolves is read as the handler it resolves to. -/
theorem Handler.reads_decode {r : Resolver} {h : Handler UInt16} {h' : Handler String}
    (resolved : h.resolved? r = some h') : Reads (Handler.decode r) h.encode h' := by
  -- An index other than 0 can only have resolved by an answer.
  have answers : h.catchType ≠ 0 → ∃ text, r .className h.catchType = .ok text := by
    intro other
    rw [Handler.resolved?, if_neg other] at resolved
    cases answer : r .className h.catchType with
    | error error =>
        rw [answer] at resolved
        cases resolved
    | ok text => exact ⟨text, rfl⟩
  obtain ⟨h'', same, reads⟩ := Handler.exists_reads_decode answers
  rw [resolved] at same
  cases same
  exact reads

namespace Attribute

variable {settings : Settings} {r : Resolver}

/-! ## The grammar -/

/-- What is made of a frame whose payload is skipped. In strict mode a marker must not have
a payload. -/
inductive Skips (settings : Settings) : Frame → Attribute → Prop
  | deprecated {length : UInt32} : (settings.strict = true → length = 0) →
      Skips settings ⟨AttributeKind.deprecated.name, length⟩ .deprecated
  | synthetic {length : UInt32} : (settings.strict = true → length = 0) →
      Skips settings ⟨AttributeKind.synthetic.name, length⟩ .synthetic
  | lineNumberTable {length : UInt32} :
      Skips settings ⟨AttributeKind.lineNumberTable.name, length⟩ .lineNumberTable
  | localVariableTable {length : UInt32} :
      Skips settings ⟨AttributeKind.localVariableTable.name, length⟩ .localVariableTable
  | unknown {name : String} {length : UInt32} : AttributeKind.ofName? name = none →
      Skips settings ⟨name, length⟩ (.unknown name length)

/-- The payload of an attribute behind its frame. The attributes inside a method body are
spelled by `nested`. -/
inductive Payload (settings : Settings) (r : Resolver) (nested : List UInt8 → Attribute → Prop) :
    Frame → List UInt8 → Attribute → Prop
  | skipped {frame : Frame} {payload : List UInt8} {a : Attribute} :
      Skips settings frame a → payload.length = frame.length.toNat →
      Payload settings r nested frame payload a
  | constantValue {length : UInt32} {value : UInt16} {text : String} :
      r .literal value = .ok text →
      Payload settings r nested ⟨AttributeKind.constantValue.name, length⟩ (bytes16 value)
        (.constantValue text)
  | sourceFile {length : UInt32} {name : UInt16} {text : String} :
      r .utf8 name = .ok text →
      Payload settings r nested ⟨AttributeKind.sourceFile.name, length⟩ (bytes16 name)
        (.sourceFile text)
  | exceptions {length : UInt32} {classes : List UInt16} {names : List String} :
      classes.length ≤ 65535 →
      List.Forall₂ (fun index name => r .className index = .ok name) classes names →
      Payload settings r nested ⟨AttributeKind.exceptions.name, length⟩
        (countedBytes bytes16 classes) (.exceptions names)
  | code {length : UInt32} {maxStack maxLocals : UInt16} {bytecode : List UInt8}
      {handlers : List (Handler UInt16)} {caught : List (Handler String)}
      {parts : List (List UInt8)} {attributes : List Attribute} :
      bytecode.length < UInt32.size → handlers.length ≤ 65535 → parts.length ≤ 65535 →
      List.Forall₂ (fun h h' => Handler.resolved? r h = some h') handlers caught →
      List.Forall₂ nested parts attributes →
      Payload settings r nested ⟨AttributeKind.code.name, length⟩
        (bytes16 maxStack ++ (bytes16 maxLocals ++ (bigEndian 4 bytecode.length ++ (bytecode ++
          (countedBytes Handler.encode handlers ++ countedBytes id parts)))))
        (.code { maxStack, maxLocals, bytecode, handlers := caught, attributes })

/-- The bytes of an attribute: a frame whose name is the answer at an index, and a payload. -/
inductive Spelled (settings : Settings) (r : Resolver) : List UInt8 → Attribute → Prop
  | framed {index : UInt16} {frame : Frame} {fields : List UInt8} {a : Attribute} :
      r .utf8 index = .ok frame.name → Payload settings r (Spelled settings r) frame fields a →
      Spelled settings r (bytes16 index ++ (bytes32 frame.length ++ fields)) a

/-! ## What was read was spelled -/

/-- A marker takes the payload that its length declares, and in strict mode there is none. -/
theorem takes_decodeMarker {kind : AttributeKind} {length : UInt32} {marker : Attribute} :
    Takes (decodeMarker settings kind length marker) fun taken a =>
      taken.length = length.toNat ∧ a = marker ∧ (settings.strict = true → length = 0) := by
  intro e c a next run
  obtain ⟨_, mid, skipped, run⟩ := bind_eq_done run
  obtain ⟨payload, whole, unread⟩ := skip_eq_done skipped
  by_cases nothing : length = 0
  · rw [if_pos nothing] at run
    cases run
    exact ⟨payload, unread, whole, rfl, fun _ => nothing⟩
  · rw [if_neg nothing] at run
    -- A payload is complained about, and in strict mode the complaint ends the run.
    obtain ⟨_, stop, noted, run⟩ := bind_eq_done run
    cases noted
    by_cases strict : settings.strict = true
    · rw [if_pos strict] at run
      cases run
    · rw [if_neg strict] at run
      cases run
      exact ⟨payload, unread, whole, rfl, fun h => absurd h strict⟩

/-- A payload that is skipped takes what its length declares. -/
theorem takes_skip {n : Nat} {a : Attribute} :
    Takes (do skip n; pure a) fun taken a' => taken.length = n ∧ a' = a := by
  intro e c a' next run
  obtain ⟨_, mid, skipped, made⟩ := bind_eq_done run
  obtain ⟨payload, whole, unread⟩ := skip_eq_done skipped
  cases made
  exact ⟨payload, unread, whole, rfl⟩

/-- An index that was read has an answer. -/
theorem takes_lookup (question : Lookup) :
    Takes (do let index ← u16; r.ask question index) fun taken text =>
      ∃ index, taken = bytes16 index ∧ r question index = .ok text := by
  intro e c text next run
  obtain ⟨index, mid, read, asked⟩ := bind_eq_done run
  obtain ⟨answer, unread⟩ := r.ask_eq_done asked
  exact ⟨bytes16 index, by rw [u16_eq_done read, unread], index, rfl, answer⟩

/-- An attribute that is made of one text takes the index of the text. -/
theorem takes_lookup_map (question : Lookup) (make : String → Attribute) :
    Takes (do let index ← u16; let text ← r.ask question index; pure (make text)) fun taken a =>
      ∃ index text, taken = bytes16 index ∧ r question index = .ok text ∧ a = make text := by
  intro e c a next run
  rw [← bind_assoc] at run
  obtain ⟨text, mid, read, made⟩ := bind_eq_done run
  obtain ⟨taken, unread, index, rfl, answer⟩ := takes_lookup question _ _ _ _ read
  cases made
  exact ⟨_, unread, index, text, rfl, answer, rfl⟩

/-- A method body has taken its fields one after the other, whatever the length in front of
it. -/
theorem takes_code {nested : Decoder Attribute} {R : List UInt8 → Attribute → Prop}
    (hn : Takes nested R) : Takes (Code.decodeWith r nested) fun taken body =>
      ∀ length, Payload settings r R ⟨AttributeKind.code.name, length⟩ taken (.code body) := by
  intro e c body next run
  obtain ⟨maxStack, c₁, first, run⟩ := bind_eq_done run
  obtain ⟨maxLocals, c₂, second, run⟩ := bind_eq_done run
  obtain ⟨size, c₃, third, run⟩ := bind_eq_done run
  obtain ⟨bytecode, c₄, taken, run⟩ := bind_eq_done run
  obtain ⟨caught, c₅, table, run⟩ := bind_eq_done run
  obtain ⟨attributes, c₆, inside, made⟩ := bind_eq_done run
  cases made
  -- What each field has taken; the two lists are counted, and their elements are known one by one.
  obtain ⟨whole, unread₄⟩ := take_eq_done taken
  obtain ⟨_, unread₅, handlers, rfl, few, resolved⟩ :=
    (Handler.takes_decode r).counted _ _ _ _ table
  have framed : Takes nested fun taken a => ∃ part, taken = id part ∧ R part a := by
    intro e c a next run
    obtain ⟨part, unread, related⟩ := hn e c a next run
    exact ⟨part, unread, part, rfl, related⟩
  obtain ⟨_, unread₆, parts, rfl, fewer, spelled⟩ := framed.counted _ _ _ _ inside
  have short : bytecode.length < UInt32.size := by
    rw [whole]
    exact UInt32.toNat_lt size
  refine ⟨_, ?_, fun length => .code short few fewer resolved spelled⟩
  rw [u16_eq_done first, u16_eq_done second, u32_eq_done third, unread₄, unread₅, unread₆, whole,
    bytes32]
  simp only [List.append_assoc]

/-- Nothing is read but a payload that the frame calls for. -/
theorem takes_decodePayload {nested : Decoder Attribute} {R : List UInt8 → Attribute → Prop}
    (hn : Takes nested R) (frame : Frame) :
    Takes (decodePayload settings r nested frame) (Payload settings r R frame) := by
  obtain ⟨name, length⟩ := frame
  intro e c a next run
  unfold decodePayload at run
  cases known : AttributeKind.ofName? name with
  | none =>
      simp only [known] at run
      obtain ⟨_, mid, noted, run⟩ := bind_eq_done run
      cases noted
      obtain ⟨payload, unread, whole, rfl⟩ := takes_skip _ _ _ _ run
      exact ⟨payload, unread, .skipped (.unknown known) whole⟩
  | some kind =>
      simp only [known] at run
      obtain rfl : kind.name = name := AttributeKind.name_of_ofName? known
      -- From here on the length matters only to the kinds that skip.
      cases kind with
      | code =>
          obtain ⟨body, stop, read, made⟩ := bind_eq_done run
          obtain ⟨taken, unread, payload⟩ := takes_code hn _ _ _ _ read
          cases made
          exact ⟨taken, unread, payload length⟩
      | constantValue =>
          obtain ⟨_, unread, index, text, rfl, answer, rfl⟩ := takes_lookup_map _ _ _ _ _ _ run
          exact ⟨_, unread, .constantValue answer⟩
      | sourceFile =>
          obtain ⟨_, unread, index, text, rfl, answer, rfl⟩ := takes_lookup_map _ _ _ _ _ _ run
          exact ⟨_, unread, .sourceFile answer⟩
      | exceptions =>
          obtain ⟨names, stop, listed, made⟩ := bind_eq_done run
          obtain ⟨_, unread, classes, rfl, few, answers⟩ :=
            (takes_lookup .className).counted _ _ _ _ listed
          cases made
          exact ⟨_, unread, .exceptions few answers⟩
      | deprecated =>
          obtain ⟨payload, unread, whole, rfl, strict⟩ := takes_decodeMarker _ _ _ _ run
          exact ⟨payload, unread, .skipped (.deprecated strict) whole⟩
      | synthetic =>
          obtain ⟨payload, unread, whole, rfl, strict⟩ := takes_decodeMarker _ _ _ _ run
          exact ⟨payload, unread, .skipped (.synthetic strict) whole⟩
      | lineNumberTable =>
          obtain ⟨payload, unread, whole, rfl⟩ := takes_skip _ _ _ _ run
          exact ⟨payload, unread, .skipped .lineNumberTable whole⟩
      | localVariableTable =>
          obtain ⟨payload, unread, whole, rfl⟩ := takes_skip _ _ _ _ run
          exact ⟨payload, unread, .skipped .localVariableTable whole⟩

/-- Nothing is read but an attribute that is spelled. The induction is on the depth that the
decoder is given. -/
theorem takes_decodeWithin (depth : Nat) :
    Takes (decodeWithin settings r depth) (Spelled settings r) := by
  induction depth with
  | zero =>
      intro e c a next run
      cases run
  | succ depth ih =>
      intro e c a next run
      rw [decodeWithin] at run
      -- The frame is six bytes and a name for them; the payload is one for that frame, and inside
      -- it the induction hypothesis holds.
      obtain ⟨frame, mid, framed, run⟩ := bind_eq_done run
      obtain ⟨index, named, front⟩ := Frame.decode_eq_done framed
      obtain ⟨fields, unread, payload⟩ := takes_decodePayload ih frame _ _ _ _ run
      refine ⟨_, ?_, .framed named payload⟩
      rw [front, unread]
      simp only [List.append_assoc]

/-- **What was read was spelled.** -/
theorem takes_decode : Takes (decode settings r) (Spelled settings r) :=
  fun e c a next run => takes_decodeWithin c.unread.length e c a next run

/-! ## What is spelled is read -/

/-- A marker with a payload of the declared length is read, in strict mode only without one. -/
theorem reads_decodeMarker {kind : AttributeKind} {length : UInt32} {marker : Attribute}
    {payload : List UInt8} (whole : payload.length = length.toNat)
    (strict : settings.strict = true → length = 0) :
    Reads (decodeMarker settings kind length marker) payload marker := by
  refine (Reads.skip whole).before ?_
  by_cases nothing : length = 0
  · rw [if_pos nothing]
    exact .pure marker
  · rw [if_neg nothing]
    refine .after (.note _) ?_
    rw [if_neg fun h => nothing (strict h)]
    exact .pure marker

/-- A payload that is skipped is read if it has the declared length. -/
theorem Skips.reads {frame : Frame} {a : Attribute} {payload : List UInt8}
    {nested : Decoder Attribute} (skips : Skips settings frame a)
    (whole : payload.length = frame.length.toNat) :
    Reads (decodePayload settings r nested frame) payload a := by
  unfold decodePayload
  cases skips with
  | deprecated strict =>
      rw [AttributeKind.ofName?_name]
      exact reads_decodeMarker whole strict
  | synthetic strict =>
      rw [AttributeKind.ofName?_name]
      exact reads_decodeMarker whole strict
  | lineNumberTable =>
      rw [AttributeKind.ofName?_name]
      exact (Reads.skip whole).map fun _ => Attribute.lineNumberTable
  | localVariableTable =>
      rw [AttributeKind.ofName?_name]
      exact (Reads.skip whole).map fun _ => Attribute.localVariableTable
  | unknown unknown =>
      -- A name that is not known is reported, which takes no bytes.
      rw [unknown]
      exact .after (.note _) ((Reads.skip whole).map fun _ => _)

/-- The payload of a method body is read as that body. -/
theorem Payload.reads_code {frame : Frame} {fields : List UInt8} {body : Code String Attribute}
    {nested : Decoder Attribute}
    (payload : Payload settings r (Reads nested) frame fields (.code body)) :
    Reads (Code.decodeWith r nested) fields body := by
  cases payload with
  | skipped skips _ => cases skips
  | @code _ maxStack maxLocals bytecode _ _ parts attributes short few fewer resolved inside =>
      have length : bytecode.length = (UInt32.ofNat bytecode.length).toNat :=
        (UInt32.toNat_ofNat_of_lt' short).symm
      have table := Reads.counted few (resolved.imp fun _ _ h => Handler.reads_decode h)
      have inner : Reads (counted nested) (countedBytes id parts) attributes :=
        Reads.counted fewer inside
      exact (Reads.u16 maxStack).bind ((Reads.u16 maxLocals).bind
        ((Reads.length32 _).bind ((Reads.take length).bind (table.bind (inner.map _)))))

/-- A payload that the frame calls for is read. -/
theorem Payload.reads {frame : Frame} {fields : List UInt8} {a : Attribute}
    {nested : Decoder Attribute} (payload : Payload settings r (Reads nested) frame fields a) :
    Reads (decodePayload settings r nested frame) fields a := by
  cases payload with
  | skipped skips whole => exact skips.reads whole
  | constantValue answer =>
      rw [decodePayload, AttributeKind.ofName?_name]
      exact reads_lookup_map answer .constantValue
  | sourceFile answer =>
      rw [decodePayload, AttributeKind.ofName?_name]
      exact reads_lookup_map answer .sourceFile
  | exceptions few answers =>
      rw [decodePayload, AttributeKind.ofName?_name]
      exact (Reads.counted few (answers.imp fun _ _ h => Reads.lookup h)).map
        Attribute.exceptions
  | @code length maxStack maxLocals _ _ _ _ _ short few fewer resolved inside =>
      rw [decodePayload, AttributeKind.ofName?_name]
      have body := @code settings _ _ length maxStack maxLocals _ _ _ _ _ short few fewer resolved
        inside
      exact body.reads_code.map Attribute.code

/-- The attributes inside one, at the next depth only. -/
def inside : Attribute → List Attribute
  | code body => body.attributes
  | _ => []

/-- What spells the attributes inside may be replaced, and only has to be replaced on bytes
that are no longer than the payload. -/
theorem Payload.imp {R S : List UInt8 → Attribute → Prop} {frame : Frame} {fields : List UInt8}
    {a : Attribute}
    (h : ∀ part, ∀ b ∈ a.inside, part.length ≤ fields.length → R part b → S part b)
    (payload : Payload settings r R frame fields a) : Payload settings r S frame fields a := by
  cases payload with
  | skipped skips whole => exact .skipped skips whole
  | constantValue answer => exact .constantValue answer
  | sourceFile answer => exact .sourceFile answer
  | exceptions few answers => exact .exceptions few answers
  | @code _ _ _ bytecode handlers _ parts attributes short few fewer resolved inner =>
      refine .code short few fewer resolved ?_
      have shorter : ∀ part ∈ parts, part.length ≤ (countedBytes id parts).length := by
        intro part member
        -- A part is a piece of the list, and so no longer than the list.
        obtain ⟨before, behind, rfl⟩ := List.append_of_mem member
        simp only [countedBytes, List.flatMap_append, List.flatMap_cons, id_eq, List.length_append]
        omega
      have members := (List.forall₂_and_left _ _).mpr
        ⟨fun b (mem : b ∈ attributes) => mem, inner.flip⟩
      refine ((List.forall₂_and_left _ _).mpr ⟨shorter, members.flip⟩).imp ?_
      rintro part b ⟨le, mem, related⟩
      refine h part b mem ?_ related
      simp only [List.length_append]
      omega

/-- Whatever is spelled is read, and only what is spelled is taken. The attributes inside one
are spelled by fewer bytes, and the induction is on these. -/
theorem Spelled.reads_decode {bytes : List UInt8} {a : Attribute}
    (spelled : Spelled settings r bytes a) : Reads (decode settings r) bytes a := by
  induction size : bytes.length using Nat.strongRecOn generalizing bytes a with
  | ind n ih =>
      cases spelled with
      | @framed index frame fields _ named payload =>
          rw [decode_eq_decodeWith, ← List.append_assoc]
          refine (Frame.reads_decode frame named).bind (payload.imp ?_).reads
          intro part b _ short inner
          -- What makes a part shorter than the whole is the frame in front of the payload.
          refine ih part.length ?_ inner rfl
          rw [← size, List.length_append, List.length_append, bytes16, bytes32, bigEndian_length,
            bigEndian_length]
          omega

/-! ## Records -/

/-- Is the payload read field by field, and not skipped? -/
def isInterpreted : Attribute → Bool
  | code _ | constantValue _ | exceptions _ | sourceFile _ => true
  | deprecated | synthetic | lineNumberTable | localVariableTable | unknown _ _ => false

/-- A payload that is not interpreted has the length that its frame declares. -/
theorem Payload.length_of_not_isInterpreted {R : List UInt8 → Attribute → Prop} {frame : Frame}
    {fields : List UInt8} {a : Attribute} (payload : Payload settings r R frame fields a)
    (skipped : a.isInterpreted = false) : fields.length = frame.length.toNat := by
  cases payload with
  | skipped _ whole => exact whole
  | constantValue _ => cases skipped
  | sourceFile _ => cases skipped
  | exceptions _ _ => cases skipped
  | code _ _ _ _ _ => cases skipped

/-- So a record whose payload is not interpreted is taken as a whole. -/
theorem Spelled.eq_encode {record : Record} (fits : record.info.length < UInt32.size)
    {taken rest unread : List UInt8} {a : Attribute} (spelled : Spelled settings r taken a)
    (skipped : a.isInterpreted = false) (same : record.encode ++ rest = taken ++ unread) :
    taken = record.encode := by
  cases spelled with
  | @framed index frame fields _ named payload =>
      rw [Record.encode] at same ⊢
      simp only [List.append_assoc] at same ⊢
      -- Index and length stand in the same places on both sides, and the length decides.
      obtain ⟨indices, same⟩ := List.append_inj same
        (by rw [bytes16, bytes16, bigEndian_length, bigEndian_length])
      obtain ⟨lengths, same⟩ := List.append_inj same
        (by rw [bytes32, bigEndian_length, bigEndian_length])
      have declared : record.info.length = frame.length.toNat := by
        have values := mod_eq_of_bigEndian_eq lengths
        rw [Nat.mod_eq_of_lt fits, Nat.mod_eq_of_lt (UInt32.toNat_lt frame.length)] at values
        exact values
      obtain ⟨payloads, -⟩ := List.append_inj same
        (declared.trans (payload.length_of_not_isInterpreted skipped).symm)
      rw [indices, lengths, payloads]

end Attribute

/-- The bytes of the record spell an attribute, to the last one. -/
def Record.Filled (settings : Settings) (r : Resolver) (record : Record) : Prop :=
  ∃ a, Attribute.Spelled settings r record.encode a

namespace Attribute

variable {settings : Settings} {r : Resolver}

/-- A record that is filled is taken as a whole. -/
theorem unread_of_filled {record : Record} (filled : record.Filled settings r) {e : Ending}
    {rest : List UInt8} {journal : List Event} {a : Attribute} {next : Cursor}
    (run : decode settings r e ⟨record.encode ++ rest, journal⟩ = .done a next) :
    next.unread = rest := by
  obtain ⟨b, spelled⟩ := filled
  obtain ⟨journal', exact_⟩ := spelled.reads_decode e rest journal
  rw [run] at exact_
  cases exact_
  rfl

/-- Records that are filled are read one after the other, each from its first byte. -/
theorem exists_reads_of_forall_filled {records : List Record}
    (filled : ∀ record ∈ records, record.Filled settings r) :
    ∃ as, List.Forall₂ (fun record a => Spelled settings r record.encode a) records as ∧
      Reads (times records.length (decode settings r)) (records.flatMap Record.encode) as := by
  obtain ⟨as, spelled⟩ := exists_forall₂ filled
  exact ⟨as, spelled, .times (spelled.imp fun _ _ h => h.reads_decode)⟩

/-- **What a read of a record takes.** A read that begins at a record and succeeds takes the
bytes that spell the attribute. It takes the whole record and no more if the attribute is
not interpreted; in general it does so exactly if the record is filled. So records that are
filled are all read, one after the other, whatever stands behind them. -/
theorem record_taken_iff_filled (settings : Settings) (r : Resolver) :
    (∀ (record : Record) (rest : List UInt8) (e : Ending) (journal : List Event) (a : Attribute)
        (next : Cursor), record.info.length < UInt32.size →
      decode settings r e ⟨record.encode ++ rest, journal⟩ = .done a next →
      (∃ taken, record.encode ++ rest = taken ++ next.unread ∧ Spelled settings r taken a) ∧
      (a.isInterpreted = false → next.unread = rest) ∧
      (next.unread = rest ↔ record.Filled settings r)) ∧
    ∀ records : List Record, (∀ record ∈ records, record.Filled settings r) →
      ∃ as, List.Forall₂ (fun record a => Spelled settings r record.encode a) records as ∧
        Reads (times records.length (decode settings r)) (records.flatMap Record.encode) as := by
  refine ⟨?_, fun records filled => exists_reads_of_forall_filled filled⟩
  intro record rest e journal a next fits run
  obtain ⟨taken, unread, spelled⟩ := takes_decode _ _ _ _ run
  refine ⟨⟨taken, unread, spelled⟩, ?_, ?_, ?_⟩
  · intro skipped
    -- A payload that is skipped has the declared length, which is that of the record.
    rw [spelled.eq_encode fits skipped unread] at unread
    exact (List.append_cancel_left unread).symm
  · -- What was taken is then the record itself.
    intro aligned
    rw [aligned] at unread
    rw [← List.append_cancel_right unread] at spelled
    exact ⟨a, spelled⟩
  · intro filled
    exact unread_of_filled filled run

/-- The names that the samples below are looked up with. -/
def sampleNames : Pool :=
  ⟨#[none, some (.utf8 "Code"), some (.utf8 "LineNumberTable"), some (.utf8 "Synthetic")]⟩

/-- A method body of one instruction, with a table of three bytes in it. -/
def bodySample : Record :=
  ⟨1, [0, 2, 0, 1, 0, 0, 0, 1, 0xB1, 0, 0, 0, 1, 0, 2, 0, 0, 0, 3, 7, 8, 9]⟩

/-- A marker with a payload, which only strict mode refuses. -/
def markerSample : Record := ⟨3, [0xAA]⟩

/-- The body fills its record, and the marker its own. So the read of the first ends at the
second, and both are read whatever stands behind them. -/
theorem filledSample_record_taken :
    bodySample.Filled {} sampleNames.resolver ∧ markerSample.Filled {} sampleNames.resolver ∧
    ∃ as, Reads (times 2 (decode {} sampleNames.resolver))
      (bodySample.encode ++ markerSample.encode) as := by
  obtain ⟨step, run⟩ := record_taken_iff_filled {} sampleNames.resolver
  have readBody : (decode {} sampleNames.resolver).verdict
      (bodySample.encode ++ markerSample.encode)
      = .ok (.code ⟨2, 1, [0xB1], [], [.lineNumberTable]⟩, markerSample.encode) := rfl
  have readMarker : (decode {} sampleNames.resolver).verdict (markerSample.encode ++ [])
      = .ok (.synthetic, []) := rfl
  obtain ⟨_, first⟩ := run_of_verdict readBody
  obtain ⟨_, second⟩ := run_of_verdict readMarker
  have body := (step _ _ _ _ _ _ (by decide) first).2.2.mp rfl
  have marker := (step _ _ _ _ _ _ (by decide) second).2.2.mp rfl
  have filled : ∀ record ∈ [bodySample, markerSample], record.Filled {} sampleNames.resolver := by
    intro record inside
    rcases List.mem_pair.mp inside with rfl | rfl
    · exact body
    · exact marker
  obtain ⟨as, -, reads⟩ := run [bodySample, markerSample] filled
  refine ⟨body, marker, as, ?_⟩
  rwa [List.flatMap_cons, List.flatMap_singleton] at reads

/-- A method body in a record that declares two bytes more than its fields take. The read
succeeds and leaves these two bytes in front of the next record. -/
theorem paddedSample_not_taken :
    (decode {} sampleNames.resolver).verdict
        (Record.encode ⟨1, [0, 0, 0, 0, 0, 0, 0, 0, 0, 0, 0, 0, 0xAA, 0xBB]⟩ ++
          Record.encode ⟨3, []⟩)
      = .ok (.code ⟨0, 0, [], [], []⟩, [0xAA, 0xBB] ++ Record.encode ⟨3, []⟩) ∧
    [0xAA, 0xBB] ++ Record.encode ⟨3, []⟩ ≠ Record.encode ⟨3, []⟩ :=
  ⟨rfl, by decide⟩

end Attribute

end ClassOutline
