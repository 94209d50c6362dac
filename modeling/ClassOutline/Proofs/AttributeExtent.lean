import ClassOutline.Proofs.AttributeGrammar
import Mathlib.Algebra.Ring.Nat

/-!
How many bytes an attribute takes, and what its declared length has to do with it.

The grammar of attributes says which bytes a read has taken, so the account of their number
is read off its rules (`Payload.extent`). A payload that is skipped is as long as the frame
declares. One that is interpreted is as long as its fields, and a method body as long as its
own fields and the attributes inside it, each of which takes as many bytes wherever it stands.
Every attribute has a frame of six bytes, so a run that took `n` bytes has not decoded more
than `n / 6` attributes at all depths together (`Spelled.six_mul_total_le`).

For the four kinds that are interpreted the declared length has no other use: two streams that
differ in these four bytes only are read alike. The two runs differ in their journals, which
name the length. What is read never depends on the journal (`IgnoresJournal`).
-/

set_option autoImplicit false

namespace ClassOutline

open Decoder

/-! ## The journal is not read -/

namespace Decoder

variable {α β : Type}

/-- An older journal behind that of the cursor stays behind it, and changes nothing else. -/
def IgnoresJournal (p : Decoder α) : Prop :=
  ∀ e c older, p e (c.extend [] older) = (p e c).extend [] older

/-- If no part of a sequence depends on the journal, the whole does not. -/
theorem IgnoresJournal.bind {p : Decoder α} {f : α → Decoder β} (hp : IgnoresJournal p)
    (hf : ∀ x, IgnoresJournal (f x)) : IgnoresJournal (p >>= f) := by
  intro e c older
  rw [bind_apply, bind_apply, hp]
  cases p e c with
  | failed error stop => rfl
  | done x mid => exact hf x e mid older

theorem IgnoresJournal.take (n : Nat) : IgnoresJournal (take n) := by
  intro e c older
  have unread : (c.extend [] older).unread = c.unread := List.append_nil _
  unfold Decoder.take
  rw [unread]
  dsimp only
  split
  · simp [Outcome.extend, Cursor.extend]
  · rfl

/-- No step of a sequential decoder looks at the journal; it is only written to. -/
theorem Sequential.ignoresJournal {p : Decoder α} (h : Sequential p) : IgnoresJournal p := by
  induction h with
  | bind _ _ hp hf => exact .bind hp hf
  | take n => exact .take n
  | notes events =>
      intro e c older
      simp only [Decoder.notes, Cursor.extend, Outcome.extend, List.append_assoc]
  | pure x | fail error | exhausted =>
      intro e c older
      rfl

/-- What is sequential up to every length does not look at it either. -/
theorem Regular.ignoresJournal {p : Decoder α} (h : Regular p) : IgnoresJournal p := by
  intro e c older
  obtain ⟨q, sequential, agree⟩ := h c.unread.length
  have room : (c.extend [] older).unread.length ≤ c.unread.length := by
    rw [Cursor.extend, List.append_nil]
  rw [← agree e c (Nat.le_refl _), ← agree e _ room]
  exact sequential.ignoresJournal e c older

/-- Two runs on the same bytes come to the same result, and leave the same bytes. -/
theorem IgnoresJournal.result_eq {p : Decoder α} (h : IgnoresJournal p) (e : Ending)
    (unread : List UInt8) (journal journal' : List Event) :
    (p e ⟨unread, journal⟩).result = (p e ⟨unread, journal'⟩).result ∧
      (p e ⟨unread, journal⟩).cursor.unread = (p e ⟨unread, journal'⟩).cursor.unread := by
  have fresh : ∀ older, p e ⟨unread, older⟩ = (p e ⟨unread, []⟩).extend [] older := by
    intro older
    have run := h e ⟨unread, []⟩ older
    rwa [Cursor.extend, List.append_nil, List.nil_append] at run
  rw [fresh journal, fresh journal']
  cases p e ⟨unread, []⟩ with
  | done x next => exact ⟨rfl, rfl⟩
  | failed error stop => exact ⟨rfl, rfl⟩

end Decoder

namespace Attribute

variable {settings : Settings} {r : Resolver}

/-! ## Lengths -/

/-- Two bytes for the index, four for the length, and the payload. -/
theorem length_framed (index : UInt16) (length : UInt32) (fields : List UInt8) :
    (bytes16 index ++ (bytes32 length ++ fields)).length = 6 + fields.length := by
  simp only [List.length_append, bytes16, bytes32, bigEndian_length]
  omega

/-- A list of items that are all as long as each other. -/
theorem length_countedBytes {α : Type} {write : α → List UInt8} {width : Nat}
    (fixed : ∀ item, (write item).length = width) (items : List α) :
    (countedBytes write items).length = 2 + width * items.length := by
  have written : (items.flatMap write).length = width * items.length := by
    induction items with
    | nil => rfl
    | cons item items ih =>
        rw [List.flatMap_cons, List.length_append, fixed, ih, List.length_cons, Nat.mul_succ]
        omega
  rw [countedBytes, List.length_append, bigEndian_length, written]

theorem length_bytes16 (w : UInt16) : (bytes16 w).length = 2 := bigEndian_length 2 w.toNat

/-- An entry of an exception table is four words. -/
theorem length_encodeHandler (h : Handler UInt16) : h.encode.length = 8 := by
  simp only [Handler.encode, List.length_append, length_bytes16]

/-- A counted list of byte strings is the count and the strings, one after the other. -/
theorem countedBytes_id (parts : List (List UInt8)) :
    countedBytes id parts = bigEndian 2 parts.length ++ parts.flatten := by
  rw [countedBytes, List.flatMap_id]

/-! ## Attributes at all depths -/

mutual

/-- The number of attributes that an attribute is made of, itself included. -/
def total : Attribute → Nat
  | code ⟨_, _, _, _, attributes⟩ => 1 + totalAll attributes
  | _ => 1

/-- The same for a list. -/
def totalAll : List Attribute → Nat
  | [] => 0
  | first :: rest => total first + totalAll rest

end

/-- What is inside a payload is at most as many attributes as have room in it. -/
theorem Payload.six_mul_total_le {frame : Frame} {fields : List UInt8} {a : Attribute}
    (payload : Payload settings r (fun part a => 6 * a.total ≤ part.length) frame fields a) :
    6 * a.total ≤ 6 + fields.length := by
  cases payload with
  | skipped skips _ => cases skips <;> simp [total]
  | constantValue _ => simp [total]
  | sourceFile _ => simp [total]
  | exceptions _ _ => simp [total]
  | @code _ _ _ _ _ _ parts attributes _ _ _ _ inside =>
      -- Each attribute inside has room for itself in its part of the bytes, so all have room in
      -- all.
      have listed : 6 * totalAll attributes ≤ parts.flatten.length := by
        clear * - inside
        induction inside with
        | nil => exact Nat.le_refl 0
        | cons first _ ih =>
            rw [totalAll, List.flatten_cons, List.length_append]
            omega
      rw [total, countedBytes_id]
      simp only [List.length_append]
      omega

/-- A frame takes six bytes, at every depth. -/
theorem Spelled.six_mul_total_le {bytes : List UInt8} {a : Attribute}
    (spelled : Spelled settings r bytes a) : 6 * a.total ≤ bytes.length := by
  induction size : bytes.length using Nat.strongRecOn generalizing bytes a with
  | ind n ih =>
      cases spelled with
      | @framed index frame fields _ named payload =>
          rw [length_framed] at size
          rw [← size]
          refine (payload.imp ?_).six_mul_total_le
          intro part b _ short inner
          exact ih part.length (by omega) inner rfl

/-! ## The account -/

/-- The bytes of an attribute, its frame included. The frame declares `length`, which counts
only where the payload is skipped. The attributes inside a method body stand at its end, and
each has the bytes that a read of it takes. -/
def Extent (settings : Settings) (r : Resolver) (length : UInt32) (taken : List UInt8) :
    Attribute → Prop
  | deprecated | synthetic | lineNumberTable | localVariableTable | unknown _ _ =>
      taken.length = 6 + length.toNat
  | constantValue _ | sourceFile _ => taken.length = 8
  | exceptions names => taken.length = 8 + 2 * names.length
  | code body => ∃ (front : List UInt8) (parts : List (List UInt8)),
      taken = front ++ parts.flatten ∧
      List.Forall₂ (Reads (decode settings r)) parts body.attributes ∧
      taken.length = 18 + body.bytecode.length + 8 * body.handlers.length
        + (parts.map List.length).sum

/-- The bytes of an attribute add up as `Extent` says, rule by rule. -/
theorem Payload.extent (index : UInt16) {frame : Frame} {fields : List UInt8} {a : Attribute}
    (payload : Payload settings r (Reads (decode settings r)) frame fields a) :
    Extent settings r frame.length (bytes16 index ++ (bytes32 frame.length ++ fields)) a := by
  cases payload with
  | skipped skips whole => cases skips <;> rw [Extent, length_framed, whole]
  | constantValue _ => rw [Extent, length_framed, length_bytes16]
  | sourceFile _ => rw [Extent, length_framed, length_bytes16]
  | exceptions _ answers =>
      rw [Extent, length_framed, length_countedBytes length_bytes16, answers.length_eq]
      omega
  | @code length maxStack maxLocals bytecode handlers caught parts attributes _ _ _ resolved
      inside =>
      rw [countedBytes_id]
      -- The attributes inside are at the end; all in front of them is one stretch of fixed size but
      -- for the bytecode and the table.
      refine ⟨bytes16 index ++ (bytes32 length ++ (bytes16 maxStack ++ (bytes16 maxLocals ++
        (bigEndian 4 bytecode.length ++ (bytecode ++ (countedBytes Handler.encode handlers ++
          bigEndian 2 parts.length)))))), parts, ?_, inside, ?_⟩
      · simp only [List.append_assoc]
      · rw [length_framed]
        simp only [List.length_append, length_bytes16, bigEndian_length, List.length_flatten,
          length_countedBytes length_encodeHandler, resolved.length_eq]
        omega

/-- The name in the frame is that of the attribute. -/
theorem Payload.name_eq {R : List UInt8 → Attribute → Prop} {frame : Frame} {fields : List UInt8}
    {a : Attribute} (payload : Payload settings r R frame fields a) : a.name = frame.name := by
  cases payload with
  | skipped skips _ => cases skips <;> rfl
  | _ => rfl

/-! ## The declared length -/

/-- Any four bytes are a length. -/
theorem exists_eq_bytes32 {four : List UInt8} (size : four.length = 4) :
    ∃ length, four = bytes32 length := by
  have bound : ofBigEndian four < UInt32.size := by
    have lt := ofBigEndian_lt four
    rwa [size] at lt
  refine ⟨UInt32.ofNat (ofBigEndian four), ?_⟩
  rw [bytes32, UInt32.toNat_ofNat_of_lt' bound, ← size, bigEndian_ofBigEndian]

/-- A payload that is read field by field is read without the length. -/
theorem decodePayload_eq_of_interpreted {kind : AttributeKind}
    (interpreted : kind ∈ [.code, .constantValue, .exceptions, .sourceFile])
    (nested : Decoder Attribute) (length length' : UInt32) :
    decodePayload settings r nested ⟨kind.name, length⟩ =
      decodePayload settings r nested ⟨kind.name, length'⟩ := by
  unfold decodePayload
  rw [AttributeKind.ofName?_name]
  simp only [List.mem_cons, List.not_mem_nil, or_false] at interpreted
  rcases interpreted with rfl | rfl | rfl | rfl <;> rfl

/-- A read of an attribute is a read of its payload, once the frame is there. -/
theorem exists_decode_eq_decodePayload {index : UInt16} {name : String}
    (answer : r .utf8 index = .ok name) (e : Ending) (length : UInt32) (rest : List UInt8)
    (journal : List Event) :
    ∃ journal', decode settings r e ⟨bytes16 index ++ (bytes32 length ++ rest), journal⟩ =
      decodePayload settings r (decode settings r) ⟨name, length⟩ e ⟨rest, journal'⟩ := by
  obtain ⟨journal', framed⟩ := Frame.exists_decode_eq_done
    (c := ⟨bytes16 index ++ (bytes32 length ++ rest), journal⟩) answer rfl e
  exact ⟨journal', (congrFun (congrFun decode_eq_decodeWith e) _).trans (bind_of_done framed)⟩

/-- So an attribute that is interpreted is read alike whatever length it declares, but for the
journal, which has the length in it. -/
theorem decode_length_unused {index : UInt16} {kind : AttributeKind}
    (interpreted : kind ∈ [.code, .constantValue, .exceptions, .sourceFile])
    (answer : r .utf8 index = .ok kind.name) (e : Ending) (length length' : UInt32)
    (rest : List UInt8) (journal : List Event) :
    (decode settings r e ⟨bytes16 index ++ (bytes32 length ++ rest), journal⟩).result =
        (decode settings r e ⟨bytes16 index ++ (bytes32 length' ++ rest), journal⟩).result ∧
      (decode settings r e ⟨bytes16 index ++ (bytes32 length ++ rest), journal⟩).cursor.unread =
        (decode settings r e ⟨bytes16 index ++ (bytes32 length' ++ rest), journal⟩).cursor.unread
      := by
  obtain ⟨older, run⟩ := exists_decode_eq_decodePayload answer e length rest journal
  obtain ⟨older', run'⟩ := exists_decode_eq_decodePayload answer e length' rest journal
  rw [run, run', decodePayload_eq_of_interpreted interpreted _ length length']
  have payload : Context fun reader =>
      decodePayload settings r (reader r) ⟨kind.name, length'⟩ :=
    (composed_decodePayload ⟨kind.name, length'⟩).context r
  exact (payload.regular settings).ignoresJournal.result_eq e rest older older'

/-! ## Both together -/

/-- **What a read of an attribute consumes, and what it does with the declared length.** A read
that succeeds took a frame, whose name is that of the attribute, and a payload; their bytes are
accounted for by `Extent`, and are at least six for every attribute that was decoded, at any
depth. If the name is that of a kind that is interpreted, any other four bytes in the place of
the length give the same value or error, and leave the same bytes unread. -/
theorem extent_of_decode_and_length_unused (settings : Settings) (r : Resolver) :
    (∀ (e : Ending) (c : Cursor) (a : Attribute) (next : Cursor),
      decode settings r e c = .done a next →
      ∃ (index : UInt16) (length : UInt32) (fields : List UInt8),
        c.unread = (bytes16 index ++ (bytes32 length ++ fields)) ++ next.unread ∧
        r .utf8 index = .ok a.name ∧
        Extent settings r length (bytes16 index ++ (bytes32 length ++ fields)) a ∧
        6 * a.total ≤ (bytes16 index ++ (bytes32 length ++ fields)).length) ∧
    ∀ (e : Ending) (index : UInt16) (kind : AttributeKind) (four other rest : List UInt8)
        (journal : List Event), kind ∈ [.code, .constantValue, .exceptions, .sourceFile] →
      r .utf8 index = .ok kind.name → four.length = 4 → other.length = 4 →
      (decode settings r e ⟨bytes16 index ++ (four ++ rest), journal⟩).result =
          (decode settings r e ⟨bytes16 index ++ (other ++ rest), journal⟩).result ∧
        (decode settings r e ⟨bytes16 index ++ (four ++ rest), journal⟩).cursor.unread =
          (decode settings r e ⟨bytes16 index ++ (other ++ rest), journal⟩).cursor.unread := by
  constructor
  · intro e c a next run
    -- What was read was spelled, and everything is read off the rule it was spelled by.
    obtain ⟨taken, unread, spelled⟩ := takes_decode _ _ _ _ run
    have room := spelled.six_mul_total_le
    cases spelled with
    | @framed index frame fields _ named payload =>
        refine ⟨index, frame.length, fields, unread, ?_, ?_, room⟩
        · rw [payload.name_eq, named]
        · exact (payload.imp fun _ _ _ _ inner => inner.reads_decode).extent index
  · intro e index kind four other rest journal interpreted answer size size'
    obtain ⟨length, rfl⟩ := exists_eq_bytes32 size
    obtain ⟨length', rfl⟩ := exists_eq_bytes32 size'
    exact decode_length_unused interpreted answer e length length' rest journal

/-- The body with a table in it takes 28 bytes, nine of them for the table, and is read alike
with a length that is far beyond its end. -/
theorem bodySample_extent :
    (∃ (index : UInt16) (length : UInt32) (fields : List UInt8),
      bodySample.encode = (bytes16 index ++ (bytes32 length ++ fields)) ++ [] ∧
      sampleNames.resolver .utf8 index = .ok "Code" ∧
      Extent {} sampleNames.resolver length (bytes16 index ++ (bytes32 length ++ fields))
        (.code ⟨2, 1, [0xB1], [], [.lineNumberTable]⟩) ∧
      6 * 2 ≤ (bytes16 index ++ (bytes32 length ++ fields)).length) ∧
    (decode {} sampleNames.resolver .endOfFile
        ⟨bytes16 1 ++ ([0, 0, 0, 22] ++ bodySample.info), []⟩).result =
      (decode {} sampleNames.resolver .endOfFile
        ⟨bytes16 1 ++ ([0xFF, 0xFF, 0xFF, 0xFF] ++ bodySample.info), []⟩).result := by
  obtain ⟨account, unused⟩ := extent_of_decode_and_length_unused {} sampleNames.resolver
  have read : (decode {} sampleNames.resolver).verdict bodySample.encode
      = .ok (.code ⟨2, 1, [0xB1], [], [.lineNumberTable]⟩, []) := rfl
  obtain ⟨_, run⟩ := run_of_verdict read
  refine ⟨account _ _ _ _ run, ?_⟩
  exact (unused .endOfFile 1 .code _ _ bodySample.info [] (by decide) rfl rfl rfl).1

end Attribute

end ClassOutline
