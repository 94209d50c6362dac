import ClassOutline.Proofs.Streaming
import Mathlib.Data.List.Forall2
import Mathlib.Data.List.Induction

/-!
Exact reads: the calculus of round trips.

`Reads p bytes value` says that `p` takes exactly `bytes` from the front of a stream
and makes `value` of them, whatever comes behind, however the stream ends and
whatever has been written into the journal. It is the form of a round trip that
composes: two exact reads in sequence are an exact read of the concatenation, so the
round trip of a record is assembled field by field in the order of its encoding.

The lemmas follow the two vocabularies side by side. For each word that
`ClassOutline.Stream.Word` writes there is the reader of `ClassOutline.Stream.Decoder`
that takes it back, and for `countedBytes` there is `counted`.

The last part goes the other way. A read that came to its end says which bytes it took:
those that writing its value gives (`word_eq_done`), so a record that was read is known
field by field as well.
-/

set_option autoImplicit false

namespace ClassOutline

namespace Decoder

variable {α β γ : Type}

/-- `p` takes exactly `bytes` from the front of any stream, and makes `value` of them. -/
def Reads (p : Decoder α) (bytes : List UInt8) (value : α) : Prop :=
  ∀ e rest journal, ∃ journal', p e ⟨bytes ++ rest, journal⟩ = .done value ⟨rest, journal'⟩

/-- Such bytes are accepted in front of any others, and these are left unread. -/
theorem Reads.verdict_append {p : Decoder α} {bytes : List UInt8} {value : α}
    (h : Reads p bytes value) (rest : List UInt8) :
    p.verdict (bytes ++ rest) = .ok (value, rest) := by
  obtain ⟨journal, run⟩ := h .endOfFile rest []
  rw [verdict, Cursor.start, run]

/-- A value and the unread bytes, as the outcome of the run behind them. -/
theorem run_of_verdict {p : Decoder α} {bytes unread : List UInt8} {value : α}
    (h : p.verdict bytes = .ok (value, unread)) :
    ∃ journal, p .endOfFile ⟨bytes, []⟩ = .done value ⟨unread, journal⟩ := by
  unfold verdict Cursor.start at h
  cases hc : p .endOfFile ⟨bytes, []⟩ with
  | failed error stop =>
      rw [hc] at h
      cases h
  | done x next =>
      rw [hc] at h
      cases h
      exact ⟨next.journal, rfl⟩

/-- An error, likewise. -/
theorem failed_of_verdict {p : Decoder α} {bytes : List UInt8} {error : Error}
    (h : p.verdict bytes = .error error) :
    ∃ stop, p .endOfFile (Cursor.start bytes) = .failed error stop := by
  unfold verdict at h
  cases hc : p .endOfFile (Cursor.start bytes) with
  | failed error' stop =>
      rw [hc] at h
      cases h
      exact ⟨stop, rfl⟩
  | done x next =>
      rw [hc] at h
      cases h

/-- A sequence that comes to an end came through its first part. -/
theorem bind_eq_done {p : Decoder α} {f : α → Decoder β} {e : Ending} {c next : Cursor} {y : β}
    (h : (p >>= f) e c = .done y next) :
    ∃ x mid, p e c = .done x mid ∧ f x e mid = .done y next := by
  rw [bind_apply] at h
  cases hc : p e c with
  | failed error stop =>
      rw [hc] at h
      cases h
  | done x mid =>
      rw [hc] at h
      exact ⟨x, mid, rfl, h⟩

/-- A sequence that fails does so in its first part or behind it. -/
theorem bind_eq_failed {p : Decoder α} {f : α → Decoder β} {e : Ending} {c stop : Cursor}
    {error : Error} (h : (p >>= f) e c = .failed error stop) :
    p e c = .failed error stop ∨ ∃ x mid, p e c = .done x mid ∧ f x e mid = .failed error stop := by
  rw [bind_apply] at h
  cases hc : p e c with
  | failed error' stop' =>
      rw [hc] at h
      cases h
      exact .inl rfl
  | done x mid =>
      rw [hc] at h
      exact .inr ⟨x, mid, rfl, h⟩

/-- Bytes that are read to the last one on their own are read exactly. -/
theorem Streams.reads {p : Decoder α} (hp : Streams p) {bytes : List UInt8} {value : α}
    (alone : p.verdict bytes = .ok (value, [])) : Reads p bytes value := by
  intro e rest journal
  rcases hp (Cursor.start bytes) with settled | starved
  · obtain ⟨older, run⟩ := run_of_verdict alone
    have longer : p e ⟨bytes ++ rest, journal⟩ = (p .endOfFile ⟨bytes, []⟩).extend rest journal :=
      settled e rest journal
    rw [longer, run]
    exact ⟨_, rfl⟩
  · rw [starved.verdict_eq] at alone
    cases alone

/-! ## Sequencing -/

theorem Reads.pure (x : α) : Reads (pure x : Decoder α) [] x :=
  fun _ _ journal => ⟨journal, rfl⟩

/-- One reads behind the other. -/
theorem Reads.bind {p : Decoder α} {f : α → Decoder β} {front back : List UInt8} {x : α} {y : β}
    (hp : Reads p front x) (hf : Reads (f x) back y) : Reads (p >>= f) (front ++ back) y := by
  intro e rest journal
  obtain ⟨journal₁, run₁⟩ := hp e (back ++ rest) journal
  obtain ⟨journal₂, run₂⟩ := hf e rest journal₁
  refine ⟨journal₂, ?_⟩
  rw [bind_apply, List.append_assoc, run₁]
  exact run₂

/-- A step that reads nothing, in front of one that does. -/
theorem Reads.after {p : Decoder α} {f : α → Decoder β} {bytes : List UInt8} {x : α} {y : β}
    (hp : Reads p [] x) (hf : Reads (f x) bytes y) : Reads (p >>= f) bytes y := hp.bind hf

/-- A step that reads nothing, behind one that does. -/
theorem Reads.before {p : Decoder α} {f : α → Decoder β} {bytes : List UInt8} {x : α} {y : β}
    (hp : Reads p bytes x) (hf : Reads (f x) [] y) : Reads (p >>= f) bytes y := by
  have h := hp.bind hf
  rwa [List.append_nil] at h

/-- What is done with a value does not read. -/
theorem Reads.map {p : Decoder α} {bytes : List UInt8} {x : α} (hp : Reads p bytes x)
    (g : α → β) : Reads (p >>= fun x => Pure.pure (g x)) bytes (g x) :=
  hp.before (.pure (g x))

theorem Reads.notes (events : List Event) : Reads (notes events) [] () :=
  fun _ _ _ => ⟨_, rfl⟩

theorem Reads.note (event : Event) : Reads (note event) [] () := .notes [event]

/-- A lookup reads nothing; it has to have an answer. -/
theorem Reads.ask {r : Resolver} {question : Lookup} {index : UInt16} {text : String}
    (h : r question index = .ok text) : Reads (r.ask question index) [] text := by
  refine .after (.note _) ?_
  rw [h]
  exact .pure text

/-! ## Bytes and words -/

/-- Bytes are taken as they are. -/
theorem Reads.take {n : Nat} {bytes : List UInt8} (h : bytes.length = n) :
    Reads (take n) bytes bytes := by
  intro e rest journal
  subst h
  exact ⟨journal, take_append bytes rest journal e⟩

theorem Reads.skip {n : Nat} {bytes : List UInt8} (h : bytes.length = n) :
    Reads (skip n) bytes () :=
  (Reads.take h).map fun _ => ()

/-- A number that fits is read back from as many bytes. -/
theorem Reads.word (width n : Nat) :
    Reads (word width) (bigEndian width n) (n % Nat.pow 256 width) := by
  have h := (Reads.take (bigEndian_length width n)).map ofBigEndian
  rwa [ofBigEndian_bigEndian] at h

theorem Reads.u8 (w : UInt8) : Reads u8 (bytes8 w) w := by
  have bytes : bytes8 w = bigEndian 1 w.toNat := by simp [bytes8, bigEndian]
  have value : UInt8.ofNat (w.toNat % Nat.pow 256 1) = w := by
    rw [Nat.mod_eq_of_lt (UInt8.toNat_lt w), UInt8.ofNat_toNat]
  rw [bytes]
  have h := (Reads.word 1 w.toNat).map UInt8.ofNat
  rwa [value] at h

/-- A length is read back modulo the range of its field. -/
theorem Reads.length16 (n : Nat) : Reads u16 (bigEndian 2 n) (UInt16.ofNat n) := by
  have h := (Reads.word 2 n).map UInt16.ofNat
  have value : UInt16.ofNat (n % Nat.pow 256 2) = UInt16.ofNat n := by
    apply UInt16.toNat_inj.mp
    simp
  rwa [value] at h

/-- A length of four bytes likewise. -/
theorem Reads.length32 (n : Nat) : Reads u32 (bigEndian 4 n) (UInt32.ofNat n) := by
  have h := (Reads.word 4 n).map UInt32.ofNat
  have value : UInt32.ofNat (n % Nat.pow 256 4) = UInt32.ofNat n := by
    apply UInt32.toNat_inj.mp
    simp
  rwa [value] at h

theorem Reads.u16 (w : UInt16) : Reads u16 (bytes16 w) w := by
  have h := Reads.length16 w.toNat
  rwa [UInt16.ofNat_toNat] at h

theorem Reads.u32 (w : UInt32) : Reads u32 (bytes32 w) w := by
  have h := Reads.length32 w.toNat
  rwa [UInt32.ofNat_toNat] at h

theorem Reads.u64 (w : UInt64) : Reads u64 (bytes64 w) w := by
  have h := (Reads.word 8 w.toNat).map UInt64.ofNat
  have value : UInt64.ofNat (w.toNat % Nat.pow 256 8) = w := by
    rw [Nat.mod_eq_of_lt (UInt64.toNat_lt w), UInt64.ofNat_toNat]
  rwa [value] at h

theorem Reads.i32 (value : Int32) : Reads i32 (bytes32 value.toUInt32) value :=
  (Reads.u32 value.toUInt32).map UInt32.toInt32

theorem Reads.i64 (value : Int64) : Reads i64 (bytes64 value.toUInt64) value :=
  (Reads.u64 value.toUInt64).map UInt64.toInt64

/-- An index and the answer to it. -/
theorem Reads.lookup {r : Resolver} {question : Lookup} {index : UInt16} {text : String}
    (answer : r question index = .ok text) :
    Reads (do let index ← Decoder.u16; r.ask question index) (bytes16 index) text :=
  (Reads.u16 index).before (.ask answer)

/-! ## Lists -/

/-- If each item has a value, the items have a list of values. -/
theorem exists_forall₂ {P : α → β → Prop} {items : List α} (h : ∀ x ∈ items, ∃ y, P x y) :
    ∃ values, List.Forall₂ P items values := by
  induction items with
  | nil => exact ⟨[], .nil⟩
  | cons x items ih =>
      obtain ⟨y, first⟩ := h x (by simp)
      obtain ⟨values, others⟩ := ih fun z hz => h z (by simp [hz])
      exact ⟨y :: values, .cons first others⟩

/-- And each value is the value of an item. -/
theorem exists_of_mem_forall₂ {P : α → β → Prop} {items : List α} {values : List β}
    (h : List.Forall₂ P items values) {y : β} (mem : y ∈ values) : ∃ x ∈ items, P x y := by
  induction h with
  | nil => cases mem
  | cons first _ ih =>
      rcases List.mem_cons.mp mem with rfl | later
      · exact ⟨_, List.mem_cons_self, first⟩
      · obtain ⟨x, inside, related⟩ := ih later
        exact ⟨x, List.mem_cons_of_mem _ inside, related⟩

/-- Items that are each read exactly are read exactly one after the other. -/
theorem Reads.times {p : Decoder α} {encode : β → List UInt8} {items : List β} {values : List α}
    (h : List.Forall₂ (fun item value => Reads p (encode item) value) items values) :
    Reads (times items.length p) (items.flatMap encode) values := by
  induction h with
  | nil => exact .pure []
  | cons first _ ih =>
      rw [List.length_cons, List.flatMap_cons, times_succ]
      exact first.bind (ih.map _)

/-- So is a list with its length in front, as long as the length fits its field. -/
theorem Reads.counted {p : Decoder α} {encode : β → List UInt8} {items : List β}
    {values : List α} (fits : items.length ≤ 65535)
    (h : List.Forall₂ (fun item value => Reads p (encode item) value) items values) :
    Reads (counted p) (countedBytes encode items) values := by
  refine (Reads.length16 items.length).bind ?_
  have count : (UInt16.ofNat items.length).toNat = items.length := by
    rw [UInt16.toNat_ofNat']
    omega
  rw [count]
  exact .times h

end Decoder

/-! ## Backwards: what a read has taken -/

/-- Writing back what was read gives the same bytes. -/
theorem bigEndian_ofBigEndian (bytes : List UInt8) :
    bigEndian bytes.length (ofBigEndian bytes) = bytes := by
  induction bytes using List.reverseRecOn with
  | nil => rfl
  | append_singleton bytes b ih =>
      have byte := UInt8.toNat_lt b
      have front : (ofBigEndian bytes * 256 + b.toNat) / 256 = ofBigEndian bytes := by omega
      have last : UInt8.ofNat (ofBigEndian bytes * 256 + b.toNat) = b := by
        apply UInt8.toNat_inj.mp
        simp only [UInt8.toNat_ofNat']
        omega
      rw [List.length_append, List.length_singleton, ofBigEndian_append, bigEndian, front, ih, last]

/-- A number of some bytes is smaller than the numbers of more. -/
theorem ofBigEndian_lt (bytes : List UInt8) : ofBigEndian bytes < Nat.pow 256 bytes.length := by
  have same := ofBigEndian_bigEndian bytes.length (ofBigEndian bytes)
  rw [bigEndian_ofBigEndian] at same
  rw [same]
  exact Nat.mod_lt _ (Nat.pow_pos (by decide))

/-- Numbers that are written alike are the same up to the width. -/
theorem mod_eq_of_bigEndian_eq {width m n : Nat} (same : bigEndian width m = bigEndian width n) :
    m % Nat.pow 256 width = n % Nat.pow 256 width := by
  rw [← ofBigEndian_bigEndian, same, ofBigEndian_bigEndian]

namespace Decoder

variable {α β : Type} {e : Ending} {c next : Cursor}

/-- What was taken has the length that was asked for. -/
theorem take_eq_done {n : Nat} {bytes : List UInt8} (run : take n e c = .done bytes next) :
    bytes.length = n ∧ c.unread = bytes ++ next.unread := by
  unfold take at run
  dsimp only at run
  split at run
  · cases run
    exact ⟨‹_›, (List.take_append_drop n c.unread).symm⟩
  · cases run

/-- A number that was read stands there, digit by digit. -/
theorem word_eq_done {width n : Nat} (run : word width e c = .done n next) :
    n < Nat.pow 256 width ∧ c.unread = bigEndian width n ++ next.unread := by
  obtain ⟨bytes, mid, read, value⟩ := bind_eq_done run
  obtain ⟨rfl, unread⟩ := take_eq_done read
  cases value
  rw [bigEndian_ofBigEndian]
  exact ⟨ofBigEndian_lt bytes, unread⟩

theorem u8_eq_done {w : UInt8} (run : u8 e c = .done w next) :
    c.unread = bytes8 w ++ next.unread := by
  obtain ⟨n, mid, read, value⟩ := bind_eq_done run
  obtain ⟨_, unread⟩ := word_eq_done read
  cases value
  exact unread

/-- A word that was read stands in front of what is left. -/
theorem u16_eq_done {w : UInt16} (run : u16 e c = .done w next) :
    c.unread = bytes16 w ++ next.unread := by
  obtain ⟨n, mid, read, value⟩ := bind_eq_done run
  obtain ⟨small, unread⟩ := word_eq_done read
  cases value
  rw [bytes16, UInt16.toNat_ofNat_of_lt' small]
  exact unread

theorem u32_eq_done {w : UInt32} (run : u32 e c = .done w next) :
    c.unread = bytes32 w ++ next.unread := by
  obtain ⟨n, mid, read, value⟩ := bind_eq_done run
  obtain ⟨small, unread⟩ := word_eq_done read
  cases value
  rw [bytes32, UInt32.toNat_ofNat_of_lt' small]
  exact unread

theorem u64_eq_done {w : UInt64} (run : u64 e c = .done w next) :
    c.unread = bytes64 w ++ next.unread := by
  obtain ⟨n, mid, read, value⟩ := bind_eq_done run
  obtain ⟨small, unread⟩ := word_eq_done read
  cases value
  rw [bytes64, UInt64.toNat_ofNat_of_lt' small]
  exact unread

theorem i32_eq_done {value : Int32} (run : i32 e c = .done value next) :
    c.unread = bytes32 value.toUInt32 ++ next.unread := by
  obtain ⟨w, mid, read, made⟩ := bind_eq_done run
  cases made
  exact u32_eq_done read

theorem i64_eq_done {value : Int64} (run : i64 e c = .done value next) :
    c.unread = bytes64 value.toUInt64 ++ next.unread := by
  obtain ⟨w, mid, read, made⟩ := bind_eq_done run
  cases made
  exact u64_eq_done read

/-- What was skipped has the length that was asked for. -/
theorem skip_eq_done {n : Nat} (run : skip n e c = .done () next) :
    ∃ bytes, bytes.length = n ∧ c.unread = bytes ++ next.unread := by
  obtain ⟨bytes, mid, read, value⟩ := bind_eq_done run
  cases value
  exact ⟨bytes, take_eq_done read⟩

/-- Every run of `p` that comes to its end has taken bytes that stand in the relation `R`
to the value. -/
def Takes (p : Decoder α) (R : List UInt8 → α → Prop) : Prop :=
  ∀ e c x next, p e c = .done x next → ∃ taken, c.unread = taken ++ next.unread ∧ R taken x

/-- Items read one after the other have taken their bytes one after the other. -/
theorem Takes.times {p : Decoder α} {write : β → List UInt8} {R : β → α → Prop}
    (hp : Takes p fun taken x => ∃ item, taken = write item ∧ R item x) (n : Nat) :
    Takes (times n p) fun taken xs =>
      ∃ items, taken = items.flatMap write ∧ items.length = n ∧ List.Forall₂ R items xs := by
  induction n with
  | zero =>
      intro e c xs next run
      cases run
      exact ⟨[], rfl, [], rfl, rfl, .nil⟩
  | succ n ih =>
      intro e c xs next run
      rw [times_succ] at run
      obtain ⟨x, mid, first, run⟩ := bind_eq_done run
      obtain ⟨more, stop, others, made⟩ := bind_eq_done run
      cases made
      -- The first took its bytes, and the others took theirs from what it left.
      obtain ⟨front, unread, item, rfl, related⟩ := hp _ _ _ _ first
      obtain ⟨back, unread', items, rfl, length, all⟩ := ih _ _ _ _ others
      refine ⟨(item :: items).flatMap write, ?_, item :: items, rfl, ?_, .cons related all⟩
      · rw [unread, unread', List.flatMap_cons, List.append_assoc]
      · rw [List.length_cons, length]

/-- A list with its length in front has taken the length and its items. -/
theorem Takes.counted {p : Decoder α} {write : β → List UInt8} {R : β → α → Prop}
    (hp : Takes p fun taken x => ∃ item, taken = write item ∧ R item x) :
    Takes (counted p) fun taken xs =>
      ∃ items, taken = countedBytes write items ∧ items.length ≤ 65535 ∧
        List.Forall₂ R items xs := by
  intro e c xs next run
  obtain ⟨n, mid, length, run⟩ := bind_eq_done run
  obtain ⟨taken, unread, items, rfl, count, all⟩ := hp.times n.toNat _ _ _ _ run
  have bound := UInt16.toNat_lt n
  refine ⟨countedBytes write items, ?_, items, rfl, by omega, all⟩
  rw [u16_eq_done length, unread, countedBytes, count, bytes16, List.append_assoc]

end Decoder

/-- A lookup that went through had an answer, and took no bytes. -/
theorem Resolver.ask_eq_done {r : Resolver} {question : Lookup} {index : UInt16} {e : Ending}
    {c next : Cursor} {text : String} (run : r.ask question index e c = .done text next) :
    r question index = .ok text ∧ next.unread = c.unread := by
  obtain ⟨_, mid, noted, answered⟩ := Decoder.bind_eq_done run
  cases noted
  cases answer : r question index with
  | error error =>
      rw [answer] at answered
      cases answered
  | ok text' =>
      rw [answer] at answered
      cases answered
      exact ⟨rfl, rfl⟩

end ClassOutline
