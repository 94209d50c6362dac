import ClassOutline.Class
import ClassOutline.Stream.Progress

/-!
How the decoders are put together.

A decoder that reads attributes depends on two things that are given to it: a resolver, which
answers its lookups, and a reader for the attributes inside it. `Composed` says of a function
of these two that it does nothing with them but ask the one and call the other, in sequence
with reads, reports and failures. Every decoder of the library is of this form, and each is
gone through once, here.

What is said about all runs of a decoder is said of the ways to put one together, by one
induction for each property. Three such inductions are here: a composition can be filled into
another (`Composed.fill`), which is how attributes nest; it is a context of its reader
(`Composed.context`), and with sequential parts it is sequential (`Context.sequential`); and
readers that agree up to a length make compositions that do (`Context.agree`). What is asked
and what a run can fail with are treated in the same way in `ClassOutline.Proofs.Lookups` and
`ClassOutline.Proofs.FailureCauses`.
-/

set_option autoImplicit false

namespace ClassOutline

open Decoder

/-! ## Compositions -/

/-- Made of reads, reports, failures among `own`, lookups and calls of a reader, by sequencing.
A report is never that of a lookup. -/
inductive Composed (own : Error → Prop) :
    {α : Type} → (Resolver → Decoder Attribute → Decoder α) → Prop
  | pure {α : Type} (x : α) : Composed own fun _ _ => (pure x : Decoder α)
  | bind {α β : Type} {F : Resolver → Decoder Attribute → Decoder α}
      {G : α → Resolver → Decoder Attribute → Decoder β} :
      Composed own F → (∀ x, Composed own (G x)) →
      Composed own fun r nested => F r nested >>= fun x => G x r nested
  | take (n : Nat) : Composed own fun _ _ => take n
  | notes {events : List Event} : (∀ event ∈ events, event.lookup? = none) →
      Composed own fun _ _ => notes events
  | fail {α : Type} {error : Error} : own error → Composed own fun _ _ => (fail error : Decoder α)
  | exhausted {α : Type} : Composed own fun _ _ => (exhausted : Decoder α)
  | ask (question : Lookup) (index : UInt16) : Composed own fun r _ => r.ask question index
  | nested : Composed own fun _ nested => nested

namespace Composed

variable {own : Error → Prop} {α : Type} {F G : Resolver → Decoder Attribute → Decoder α}

theorem note {event : Event} (report : event.lookup? = none) :
    Composed own fun _ _ => note event :=
  .notes fun _ mem => List.mem_singleton.mp mem ▸ report

/-- What is known of the condition may be used in the branch. -/
theorem ite {C : Prop} [Decidable C] (hF : C → Composed own F) (hG : ¬ C → Composed own G) :
    Composed own fun r nested => if C then F r nested else G r nested := by
  by_cases h : C
  · simp only [if_pos h]
    exact hF h
  · simp only [if_neg h]
    exact hG h

theorem skip (n : Nat) : Composed own fun _ _ => skip n := .bind (.take n) fun _ => .pure _

theorem word (width : Nat) : Composed own fun _ _ => word width :=
  .bind (.take width) fun _ => .pure _

theorem u8 : Composed own fun _ _ => u8 := .bind (.word 1) fun _ => .pure _

theorem u16 : Composed own fun _ _ => u16 := .bind (.word 2) fun _ => .pure _

theorem u32 : Composed own fun _ _ => u32 := .bind (.word 4) fun _ => .pure _

theorem u64 : Composed own fun _ _ => u64 := .bind (.word 8) fun _ => .pure _

theorem i32 : Composed own fun _ _ => i32 := .bind .u32 fun _ => .pure _

theorem i64 : Composed own fun _ _ => i64 := .bind .u64 fun _ => .pure _

/-- As often as one likes. -/
theorem times (hF : Composed own F) (n : Nat) :
    Composed own fun r nested => times n (F r nested) := by
  induction n with
  | zero => exact .pure []
  | succ n ih =>
      simp only [times_succ]
      exact .bind hF fun _ => .bind ih fun _ => .pure _

theorem counted (hF : Composed own F) : Composed own fun r nested => counted (F r nested) :=
  .bind .u16 fun n => .times hF n.toNat

/-- More errors may be allowed. -/
theorem mono {own' : Error → Prop} (sub : ∀ error, own error → own' error) (hF : Composed own F) :
    Composed own' F := by
  induction hF with
  | pure x => exact .pure x
  | bind _ _ first second => exact .bind first second
  | take n => exact .take n
  | notes reports => exact .notes reports
  | fail reason => exact .fail (sub _ reason)
  | exhausted => exact .exhausted
  | ask question index => exact .ask question index
  | nested => exact .nested

/-- A composition in the place of the reader of another makes one composition. -/
theorem fill {N : Resolver → Decoder Attribute → Decoder Attribute} (hF : Composed own F)
    (hN : Composed own N) : Composed own fun r nested => F r (N r nested) := by
  induction hF with
  | pure x => exact .pure x
  | bind _ _ first second => exact .bind first second
  | take n => exact .take n
  | notes reports => exact .notes reports
  | fail reason => exact .fail reason
  | exhausted => exact .exhausted
  | ask question index => exact .ask question index
  | nested => exact hN

end Composed

/-! ## Contexts

A class makes its resolver on the way, out of the constant pool that it reads. So what is given
to a class is a reader for every resolver, and this is the form in which nested readers are
compared. -/

/-- A reader of attributes, with the answers of a resolver. -/
abbrev AttributeReader : Type := Resolver → Decoder Attribute

/-- Put together from calls of the reader, and from decoders that do not know of it. -/
inductive Context : {α : Type} → (AttributeReader → Decoder α) → Prop
  | const {α : Type} {p : Decoder α} : Sequential p → Context fun _ => p
  | call (r : Resolver) : Context fun reader => reader r
  | bind {α β : Type} {F : AttributeReader → Decoder α} {G : α → AttributeReader → Decoder β} :
      Context F → (∀ x, Context (G x)) → Context fun reader => F reader >>= fun x => G x reader

/-- A lookup is a report and then an answer, which is a value or an error. -/
theorem Resolver.sequential_ask (r : Resolver) (question : Lookup) (index : UInt16) :
    Sequential (r.ask question index) :=
  .bind (.notes [_]) fun _ => .ofExcept _

/-- A composition with one resolver is a context. -/
theorem Composed.context {own : Error → Prop} {α : Type}
    {F : Resolver → Decoder Attribute → Decoder α} (hF : Composed own F) (r : Resolver) :
    Context fun reader => F r (reader r) := by
  induction hF with
  | pure x => exact .const (.pure x)
  | bind _ _ first second => exact .bind first second
  | take n => exact .const (.take n)
  | @notes events _ => exact .const (.notes events)
  | @fail _ error _ => exact .const (.fail error)
  | exhausted => exact .const .exhausted
  | ask question index => exact .const (r.sequential_ask question index)
  | nested => exact .call r

namespace Context

variable {α : Type} {F : AttributeReader → Decoder α} {reader reader' : AttributeReader}

/-- A context of sequential readers is sequential. -/
theorem sequential (hF : Context F) (h : ∀ r, Sequential (reader r)) : Sequential (F reader) := by
  induction hF with
  | const sequential => exact sequential
  | call r => exact h r
  | bind _ _ first second => exact .bind first second

/-- A context goes forward if its reader does. -/
theorem forward (hF : Context F) (h : ∀ r, Forward (reader r)) : Forward (F reader) := by
  induction hF with
  | const sequential => exact sequential.forward
  | call r => exact h r
  | bind _ _ first second => exact .bind first second

/-- Readers that go forward and agree up to a length are the same to a context, up to that
length. -/
theorem agree (hF : Context F) {n : Nat} (forward : ∀ r, Forward (reader r))
    (h : ∀ r, AgreeUpTo n (reader r) (reader' r)) : AgreeUpTo n (F reader) (F reader') := by
  induction hF with
  | const _ => exact .refl n _
  | call r => exact h r
  | bind hF _ first second => exact .bind (hF.forward forward) first second

end Context

namespace Composed

variable {own : Error → Prop} {α : Type}

/-- A composition of sequential parts is sequential. -/
theorem sequential {F : Resolver → Decoder Attribute → Decoder α} (hF : Composed own F)
    (r : Resolver) {nested : Decoder Attribute} (h : Sequential nested) :
    Sequential (F r nested) :=
  (hF.context r).sequential fun _ => h

/-- So is one that calls no reader. -/
theorem sequential_closed {F : Resolver → Decoder α} (hF : Composed own fun r _ => F r)
    (r : Resolver) : Sequential (F r) :=
  hF.sequential r Sequential.exhausted

/-- One that neither asks nor calls a reader is sequential as it stands. -/
theorem sequential_const {p : Decoder α} (hp : Composed own fun _ _ => p) : Sequential p :=
  hp.sequential_closed fun _ _ => .ok ""

/-- With one resolver this is said of the reader alone. -/
theorem agree {F : Resolver → Decoder Attribute → Decoder α} (hF : Composed own F) (r : Resolver)
    {n : Nat} {p q : Decoder Attribute} (forward : Forward p) (h : AgreeUpTo n p q) :
    AgreeUpTo n (F r p) (F r q) :=
  (hF.context r).agree (fun _ => forward) fun _ => h

end Composed

/-! ## Constants and pools -/

section Pools

/-- The tags of the format. -/
def Constant.tags : List Nat := [1, 3, 4, 5, 6, 7, 8, 9, 10, 11, 12, 15, 16, 17, 18, 19, 20]

/-- A constant is refused if its tag is none of the format. -/
inductive Constant.Refusal : Error → Prop
  | unknownTag {tag : UInt8} : tag.toNat ∉ tags → Refusal (.unknownTag tag)

variable {own : Error → Prop}

theorem Constant.composed_decodeIndex (make : UInt16 → Constant) :
    Composed own fun _ _ => decodeIndex make :=
  .bind .u16 fun _ => .pure _

theorem Constant.composed_decodePair (make : UInt16 → UInt16 → Constant) :
    Composed own fun _ _ => decodePair make :=
  .bind .u16 fun _ => .bind .u16 fun _ => .pure _

/-- A constant of a tag that is none of the format is refused. -/
theorem Constant.composed_decodePayload (tag : UInt8) :
    Composed Refusal fun _ _ => decodePayload tag := by
  unfold decodePayload
  -- Every tag of the format calls for reads; what is left is a tag that is not.
  split
  · exact .bind .u16 fun _ => .bind (.take _) fun _ => .pure _
  · exact .bind .i32 fun _ => .pure _
  · exact .bind .u32 fun _ => .pure _
  · exact .bind .i64 fun _ => .pure _
  · exact .bind .u64 fun _ => .pure _
  · exact composed_decodeIndex classRef
  · exact composed_decodeIndex stringRef
  · exact composed_decodePair fieldRef
  · exact composed_decodePair _
  · exact composed_decodePair _
  · exact composed_decodePair nameAndType
  · exact .bind .u8 fun _ => .bind .u16 fun _ => .pure _
  · exact composed_decodeIndex methodType
  · exact composed_decodePair dynamic
  · exact composed_decodePair invokeDynamic
  · exact composed_decodeIndex moduleRef
  · exact composed_decodeIndex packageRef
  · refine .fail (.unknownTag ?_)
    simp only [tags, List.mem_cons, List.not_mem_nil, or_false, not_or]
    refine ⟨?_, ?_, ?_, ?_, ?_, ?_, ?_, ?_, ?_, ?_, ?_, ?_, ?_, ?_, ?_, ?_, ?_⟩ <;> assumption

theorem Constant.composed_decode : Composed Refusal fun _ _ => decode :=
  .bind .u8 composed_decodePayload

/-- One round of filling a pool: a constant is read while there is room. -/
theorem Pool.fill_succ (count steps : Nat) (p : Pool) :
    (fill count (steps + 1) p : Decoder Pool) =
      if p.size < count then do
        let k ← Constant.decode
        (fill count steps (p.push k).2 : Decoder Pool)
      else pure p := by
  funext e c
  rw [fill]
  split
  · show _ = Decoder.bind Constant.decode (fun k => fill count steps (p.push k).2) e c
    unfold Decoder.bind
    cases Constant.decode e c <;> rfl
  · rfl

/-- A pool is one constant after the other, until there are as many slots as its count says. -/
theorem Pool.composed_fill (count steps : Nat) (p : Pool) :
    Composed Constant.Refusal fun _ _ => (fill count steps p : Decoder Pool) := by
  induction steps generalizing p with
  | zero => exact .pure p
  | succ steps ih =>
      simp only [fill_succ]
      exact .ite (fun _ => .bind Constant.composed_decode fun k => ih (p.push k).2) fun _ => .pure p

/-- A pool is refused for a tag of one of its constants only. -/
theorem Pool.composed_decode : Composed Constant.Refusal fun _ _ => decode :=
  .bind .u16 fun _ => .bind (composed_fill _ _ _) fun _ => .bind (.note rfl) fun _ => .pure _

end Pools

/-! ## Attributes -/

/-- Is an attribute of this kind a marker, which should have no payload? -/
def AttributeKind.IsMarker (kind : AttributeKind) : Prop :=
  kind = .deprecated ∨ kind = .synthetic

/-- An attribute is refused for itself in strict mode only, and only as a marker. -/
inductive Attribute.Refusal (settings : Settings) : Error → Prop
  | marker {kind : AttributeKind} {length : UInt32} : settings.strict = true → kind.IsMarker →
      Refusal settings (.malformedAttribute kind.name s!"expected length 0, found {length.toNat}")

section Attributes

variable {own : Error → Prop} {settings : Settings}

/-- The name of an attribute is looked up, and its length reported. -/
theorem Frame.composed_decode : Composed own fun r _ => decode r :=
  .bind .u16 fun _ => .bind (.ask _ _) fun _ => .bind .u32 fun _ => .bind (.note rfl) fun _ =>
    .pure _

/-- A handler asks for the class it catches, unless the index is 0. -/
theorem Handler.composed_decode : Composed own fun r _ => decode r :=
  .bind .u16 fun _ => .bind .u16 fun _ => .bind .u16 fun _ =>
    .bind (.bind .u16 fun _ => .ite (fun _ => .pure _) fun _ => .ask _ _) fun _ => .pure _

/-- A method body calls the reader for the attributes at its end. -/
theorem Code.composed_decodeWith : Composed own decodeWith :=
  .bind .u16 fun _ => .bind .u16 fun _ => .bind .u32 fun _ => .bind (.take _) fun _ =>
    .bind (.counted Handler.composed_decode) fun _ => .bind (.counted .nested) fun _ => .pure _

/-- So it is a context of that reader. -/
theorem Code.context_decodeWith (r : Resolver) : Context fun reader => decodeWith r (reader r) :=
  (composed_decodeWith : Composed (fun _ => False) _).context r

namespace Attribute

/-- A marker is refused for a payload, in strict mode. -/
theorem composed_decodeMarker {kind : AttributeKind} (isMarker : kind.IsMarker) (length : UInt32)
    (marker : Attribute) :
    Composed (Refusal settings) fun _ _ => decodeMarker settings kind length marker :=
  .bind (.skip _) fun _ => .ite (fun _ => .pure _) fun _ => .bind (.note rfl) fun _ =>
    .ite (fun strict => .fail (.marker strict isMarker)) fun _ => .pure _

/-- Of the kinds of attribute only bodies call the reader, and only markers are ever refused. -/
theorem composed_decodeKnown (length : UInt32) (kind : AttributeKind) :
    Composed (Refusal settings) fun r nested => decodeKnown settings r nested length kind := by
  cases kind with
  | code => exact .bind Code.composed_decodeWith fun _ => .pure _
  | constantValue => exact .bind .u16 fun _ => .bind (.ask _ _) fun _ => .pure _
  | deprecated => exact composed_decodeMarker (.inl rfl) _ _
  | synthetic => exact composed_decodeMarker (.inr rfl) _ _
  | exceptions => exact .bind (.counted (.bind .u16 fun _ => .ask _ _)) fun _ => .pure _
  | sourceFile => exact .bind .u16 fun _ => .bind (.ask _ _) fun _ => .pure _
  | lineNumberTable => exact .bind (.skip _) fun _ => .pure _
  | localVariableTable => exact .bind (.skip _) fun _ => .pure _

/-- A name that is no kind is reported and skipped. -/
theorem composed_decodePayload (frame : Frame) :
    Composed (Refusal settings) fun r nested => decodePayload settings r nested frame := by
  unfold decodePayload
  cases AttributeKind.ofName? frame.name with
  | some kind => exact composed_decodeKnown _ kind
  | none => exact .bind (.note rfl) fun _ => .bind (.skip _) fun _ => .pure _

/-- A frame and its payload. -/
theorem composed_decodeWith (settings : Settings) :
    Composed (Refusal settings) (decodeWith settings) :=
  .bind Frame.composed_decode composed_decodePayload

theorem context_decodeWith (settings : Settings) (r : Resolver) :
    Context fun reader => decodeWith settings r (reader r) :=
  (composed_decodeWith settings).context r

/-- A list of attributes calls the reader as often as its count says. -/
theorem context_counted (r : Resolver) : Context fun reader => counted (reader r) :=
  (Composed.counted (.nested : Composed (fun _ => False) _)).context r

/-- Attributes nest by filling the reader in, as often as the bound allows. -/
theorem composed_decodeWithin (settings : Settings) (depth : Nat) :
    Composed (Refusal settings) fun r _ => decodeWithin settings r depth := by
  induction depth with
  | zero => exact .exhausted
  | succ depth ih => exact (composed_decodeWith settings).fill ih

end Attribute

end Attributes

/-! ## Members and classes -/

section Classes

variable {own : Error → Prop} {settings : Settings}

theorem Access.composed_decode (k : AccessKind) : Composed own fun _ _ => decode k :=
  .bind .u16 fun _ => .pure _

/-- A member asks for its name and its descriptor, and calls the reader for its attributes. -/
theorem MemberParts.composed_decode (k : AccessKind) : Composed own (decode k) :=
  .bind (Access.composed_decode k) fun _ => .bind .u16 fun _ => .bind (.ask _ _) fun _ =>
    .bind .u16 fun _ => .bind (.ask _ _) fun _ => .bind (.counted .nested) fun _ => .pure _

/-- What is ignored is reported, and that is no lookup. -/
theorem Attribute.Meaning.lookup?_of_mem_ignored {σ : Type} (meaning : Attribute.Meaning σ)
    {holder : Holder} {attributes : List Attribute} {event : Event}
    (mem : event ∈ meaning.ignored holder attributes) : event.lookup? = none := by
  obtain ⟨a, -, rfl⟩ := List.mem_map.mp mem
  rfl

/-- Fields and methods report what they ignore. -/
theorem Field.composed_decodeWith : Composed own decodeWith :=
  .bind (MemberParts.composed_decode _) fun _ =>
    .bind (.notes fun _ => meaning.lookup?_of_mem_ignored) fun _ => .pure _

theorem Method.composed_decodeWith : Composed own decodeWith :=
  .bind (MemberParts.composed_decode _) fun _ =>
    .bind (.notes fun _ => meaning.lookup?_of_mem_ignored) fun _ => .pure _

theorem Version.composed_decode : Composed own fun _ _ => Version.decode :=
  .bind .u16 fun _ => .bind .u16 fun _ => .pure _

theorem Version.sequential_decode : Sequential Version.decode :=
  Composed.sequential_const (composed_decode : Composed (fun _ => False) _)

namespace Class

/-- Behind its pool a class is refused for itself if it has no name. -/
inductive Refusal : Error → Prop
  | noName : Refusal (.unresolved 0 .classRef)

/-- A class is refused for another magic number. -/
theorem composed_decodeMagic :
    Composed (fun error => ∃ magic, magic ≠ classMagic ∧ error = .badMagic magic) fun _ _ =>
      decodeMagic :=
  .bind .u32 fun magic => .ite (fun _ => .pure _) fun other => .fail ⟨magic, other, rfl⟩

/-- It is refused for index 0 in the place of its name. -/
theorem composed_decodeName : Composed Refusal fun r _ => decodeName r := by
  refine .bind .u16 fun index => .ite (fun zero => ?_) fun _ => .ask _ _
  rw [zero]
  exact .fail .noName

theorem composed_decodeSuperclass : Composed own fun r _ => decodeSuperclass r :=
  .bind .u16 fun _ => .ite (fun _ => .pure _) fun _ => .bind (.ask _ _) fun _ => .pure _

theorem composed_decodeInterface : Composed own fun r _ => decodeInterface r :=
  .bind .u16 fun _ => .ask _ _

/-- Behind the pool it is a composition with one resolver, the answers of that pool. -/
theorem composed_decodeBody (version : Version) (pool : Pool) :
    Composed Refusal fun r nested => decodeBody r nested version pool :=
  .bind (Access.composed_decode _) fun _ => .bind composed_decodeName fun _ =>
    .bind composed_decodeSuperclass fun _ => .bind (.note rfl) fun _ =>
    .bind (.counted composed_decodeInterface) fun _ =>
    .bind (.counted Field.composed_decodeWith) fun _ =>
    .bind (.counted Method.composed_decodeWith) fun _ => .bind (.counted .nested) fun _ =>
    .bind (.notes fun _ => meaning.lookup?_of_mem_ignored) fun _ => .pure _

/-- In front of its attributes a class reads its own constant pool, and asks that. -/
theorem context_decodeWith : Context decodeWith :=
  .bind (.const composed_decodeMagic.sequential_const) fun _ =>
    .bind (.const Version.sequential_decode) fun version =>
    .bind (.const Pool.composed_decode.sequential_const) fun pool =>
    (composed_decodeBody version pool).context pool.resolver

end Class

end Classes

end ClassOutline
