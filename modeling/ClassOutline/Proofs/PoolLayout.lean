import ClassOutline.Proofs.PoolInvariant

/-!
Where the bytes of a constant pool come from, and when they come back.

A pool is read from a count and from entries, and both leave traces in the bytes that the
pool itself does not keep: a text may be written in bytes that are no encoding, and the
last constant may go beyond the count. A `Layout` is what was there before reading. The
bytes that a pool was read from have exactly one (`decode_eq_done`, `Layout.bytes_inj`).

Writing the pool gives these bytes again exactly if nothing of the layout was lost
(`Layout.encode_pool_eq_iff`). That only such layouts come back is the harder half. The
encodings of the entries are compared as one string, so the lengths of the entries could
shift against each other, and a length that wrapped at 65536 could hide a text that grew.
Front to back neither can happen: the first text whose encoding differs from its payload
would have to begin with its payload and be longer by 65536 bytes or more, and an encoding
that can be cut like this is the encoding of another text
(`ModifiedUtf8.decode_ne_of_cut`).

The limits on rewriting a pool follow from the same equivalence: a pool that is read back
from its own bytes has a layout of these bytes, whose count and payloads are in range.
-/

set_option autoImplicit false

namespace ClassOutline

open Decoder

theorem bytes16_inj {v w : UInt16} (same : bytes16 v = bytes16 w) : v = w := by
  have values := mod_eq_of_bigEndian_eq same
  rw [Nat.mod_eq_of_lt (UInt16.toNat_lt v), Nat.mod_eq_of_lt (UInt16.toNat_lt w)] at values
  exact UInt16.toNat_inj.mp values

namespace Pool

/-! ## Entries -/

/-- A constant as it stands in the bytes of a pool. A text is still the bytes that it is
written in, and these need not be the encoding of any text. -/
inductive Entry where
  | text (payload : List UInt8) (fits : payload.length < 65536)
  | plain (k : Constant) (other : ∀ text, k ≠ .utf8 text)

namespace Entry

/-- What an entry is read as. -/
def constant : Entry → Constant
  | text payload _ => .utf8 (ModifiedUtf8.decode payload)
  | plain k _ => k

/-- The bytes of an entry. -/
def bytes : Entry → List UInt8
  | text payload _ => bytes8 1 ++ (bigEndian 2 payload.length ++ payload)
  | plain k _ => k.encode

/-- The payload of a text is the encoding of a text. -/
def Canonical : Entry → Prop
  | text payload _ => ∃ s, payload = ModifiedUtf8.encode s
  | plain _ _ => True

/-- The bytes of an entry are read as its constant. -/
theorem reads_decode (entry : Entry) : Reads Constant.decode entry.bytes entry.constant := by
  cases entry with
  | text payload fits => exact Constant.reads_decode_utf8 (Nat.mod_eq_of_lt fits).symm
  | plain k other =>
      apply Constant.reads_decode
      intro text same
      exact absurd same (other text)

theorem bytes_ne_nil (entry : Entry) : entry.bytes ≠ [] := by
  cases entry <;> exact List.cons_ne_nil _ _

/-- Two entries in front of the same bytes are one. -/
theorem eq_of_append_eq {entry entry' : Entry} {rest rest' : List UInt8}
    (same : entry.bytes ++ rest = entry'.bytes ++ rest') : entry = entry' ∧ rest = rest' := by
  -- Both are read, and reading has one outcome. Of a text this says less than that the
  -- payloads agree, but the bytes that are left say where they end.
  obtain ⟨_, run⟩ := entry.reads_decode .endOfFile rest []
  obtain ⟨_, run'⟩ := entry'.reads_decode .endOfFile rest' []
  rw [same, run', Outcome.done.injEq, Cursor.mk.injEq] at run
  obtain ⟨constant, unread, -⟩ := run
  subst unread
  have bytes := List.append_cancel_right same
  refine ⟨?_, rfl⟩
  cases entry with
  | text payload fits =>
      cases entry' with
      | text payload' fits' =>
          have payloads := List.append_inj_right (List.append_cancel_left bytes)
            (by rw [bigEndian_length, bigEndian_length])
          subst payloads
          rfl
      | plain k' other' => exact absurd constant (other' _)
  | plain k other =>
      cases entry' with
      | text payload' fits' => exact absurd constant.symm (other _)
      | plain k' other' =>
          have : k' = k := constant
          subst this
          rfl

/-- Entries are known from their bytes, one after the other. -/
theorem flatMap_bytes_inj {entries entries' : List Entry}
    (same : entries.flatMap bytes = entries'.flatMap bytes) : entries = entries' := by
  -- Entries come off the front one by one, and neither list can run out before the other.
  induction entries generalizing entries' with
  | nil =>
      cases entries' with
      | nil => rfl
      | cons entry' entries' =>
          have empty := (List.append_eq_nil_iff.mp same.symm).1
          exact absurd empty entry'.bytes_ne_nil
  | cons entry entries ih =>
      cases entries' with
      | nil =>
          have empty := (List.append_eq_nil_iff.mp same).1
          exact absurd empty entry.bytes_ne_nil
      | cons entry' entries' =>
          obtain ⟨rfl, others⟩ := eq_of_append_eq same
          rw [ih others]

/-! ## Reading an entry -/

/-- Behind its tag, `taken` is an entry that is read as `k`. -/
def Behind (tag : UInt8) (taken : List UInt8) (k : Constant) : Prop :=
  ∃ entry : Entry, entry.bytes = bytes8 tag ++ taken ∧ entry.constant = k

/-- A constant that is made of one word has taken that word. -/
theorem takes_one {α : Type} {tag : UInt8} {p : Decoder α} {write : α → List UInt8}
    {make : α → Constant}
    (hp : ∀ {e c x next}, p e c = .done x next → c.unread = write x ++ next.unread)
    (other : ∀ x text, make x ≠ .utf8 text)
    (spelled : ∀ x, (make x).encode = bytes8 tag ++ write x) :
    Takes (do let x ← p; pure (make x)) (Behind tag) := by
  intro e c k next run
  obtain ⟨x, mid, read, made⟩ := bind_eq_done run
  cases made
  exact ⟨write x, hp read, .plain (make x) (other x), spelled x, rfl⟩

/-- A constant that is made of two words has taken both. -/
theorem takes_two {α β : Type} {tag : UInt8} {p : Decoder α} {q : Decoder β}
    {write : α → List UInt8} {write' : β → List UInt8} {make : α → β → Constant}
    (hp : ∀ {e c x next}, p e c = .done x next → c.unread = write x ++ next.unread)
    (hq : ∀ {e c y next}, q e c = .done y next → c.unread = write' y ++ next.unread)
    (other : ∀ x y text, make x y ≠ .utf8 text)
    (spelled : ∀ x y, (make x y).encode = bytes8 tag ++ (write x ++ write' y)) :
    Takes (do let x ← p; let y ← q; pure (make x y)) (Behind tag) := by
  intro e c k next run
  obtain ⟨x, mid, first, run⟩ := bind_eq_done run
  obtain ⟨y, stop, second, made⟩ := bind_eq_done run
  cases made
  refine ⟨write x ++ write' y, ?_, .plain (make x y) (other x y), spelled x y, rfl⟩
  rw [hp first, hq second, List.append_assoc]

/-- A text has taken its length and its payload, whatever the payload. -/
theorem takes_decodeText : Takes Constant.decodeText (Behind 1) := by
  intro e c k next run
  obtain ⟨length, mid, measured, run⟩ := bind_eq_done run
  obtain ⟨payload, stop, read, made⟩ := bind_eq_done run
  cases made
  obtain ⟨size, unread⟩ := take_eq_done read
  have fits : payload.length < 65536 := by
    rw [size]
    exact UInt16.toNat_lt length
  refine ⟨bigEndian 2 payload.length ++ payload, ?_, .text payload fits, rfl, rfl⟩
  rw [u16_eq_done measured, unread, size, bytes16, List.append_assoc]

/-- Whatever its tag, a constant is read from the bytes of an entry. -/
theorem takes_decodePayload (tag : UInt8) : Takes (Constant.decodePayload tag) (Behind tag) := by
  have index : ∀ {n : UInt8} (make : UInt16 → Constant), (∀ i text, make i ≠ .utf8 text) →
      (∀ i, (make i).encode = bytes8 n ++ bytes16 i) →
      Takes (Constant.decodeIndex make) (Behind n) :=
    fun _ other spelled => takes_one u16_eq_done other spelled
  have pair : ∀ {n : UInt8} (make : UInt16 → UInt16 → Constant),
      (∀ i j text, make i j ≠ .utf8 text) →
      (∀ i j, (make i j).encode = bytes8 n ++ (bytes16 i ++ bytes16 j)) →
      Takes (Constant.decodePair make) (Behind n) :=
    fun _ other spelled => takes_two u16_eq_done u16_eq_done other spelled
  -- Only a text has bytes of its own; any other constant is written in the words it is
  -- read from, and the number of the tag says which.
  unfold Constant.decodePayload
  split
  · obtain rfl : tag = 1 := UInt8.toNat_inj.mp ‹_›
    exact takes_decodeText
  · obtain rfl : tag = 3 := UInt8.toNat_inj.mp ‹_›
    exact takes_one i32_eq_done (by simp) fun _ => rfl
  · obtain rfl : tag = 4 := UInt8.toNat_inj.mp ‹_›
    exact takes_one u32_eq_done (by simp) fun _ => rfl
  · obtain rfl : tag = 5 := UInt8.toNat_inj.mp ‹_›
    exact takes_one i64_eq_done (by simp) fun _ => rfl
  · obtain rfl : tag = 6 := UInt8.toNat_inj.mp ‹_›
    exact takes_one u64_eq_done (by simp) fun _ => rfl
  · obtain rfl : tag = 7 := UInt8.toNat_inj.mp ‹_›
    exact index .classRef (by simp) fun _ => rfl
  · obtain rfl : tag = 8 := UInt8.toNat_inj.mp ‹_›
    exact index .stringRef (by simp) fun _ => rfl
  · obtain rfl : tag = 9 := UInt8.toNat_inj.mp ‹_›
    exact pair .fieldRef (by simp) fun _ _ => rfl
  · obtain rfl : tag = 10 := UInt8.toNat_inj.mp ‹_›
    exact pair (.methodRef · · false) (by simp) fun _ _ => rfl
  · obtain rfl : tag = 11 := UInt8.toNat_inj.mp ‹_›
    exact pair (.methodRef · · true) (by simp) fun _ _ => rfl
  · obtain rfl : tag = 12 := UInt8.toNat_inj.mp ‹_›
    exact pair .nameAndType (by simp) fun _ _ => rfl
  · obtain rfl : tag = 15 := UInt8.toNat_inj.mp ‹_›
    exact takes_two u8_eq_done u16_eq_done (by simp) fun _ _ => rfl
  · obtain rfl : tag = 16 := UInt8.toNat_inj.mp ‹_›
    exact index .methodType (by simp) fun _ => rfl
  · obtain rfl : tag = 17 := UInt8.toNat_inj.mp ‹_›
    exact pair .dynamic (by simp) fun _ _ => rfl
  · obtain rfl : tag = 18 := UInt8.toNat_inj.mp ‹_›
    exact pair .invokeDynamic (by simp) fun _ _ => rfl
  · obtain rfl : tag = 19 := UInt8.toNat_inj.mp ‹_›
    exact index .moduleRef (by simp) fun _ => rfl
  · obtain rfl : tag = 20 := UInt8.toNat_inj.mp ‹_›
    exact index .packageRef (by simp) fun _ => rfl
  · intro e c k next run
    cases run

/-- A constant that was read came from an entry. -/
theorem takes_decode : Takes Constant.decode fun taken k =>
    ∃ entry : Entry, entry.bytes = taken ∧ entry.constant = k := by
  intro e c k next run
  obtain ⟨tag, mid, tagged, run⟩ := bind_eq_done run
  obtain ⟨taken, unread, entry, spelled, same⟩ := takes_decodePayload tag _ _ _ _ run
  refine ⟨entry.bytes, ?_, entry, rfl, same⟩
  rw [u8_eq_done tagged, unread, spelled, List.append_assoc]

/-! ## Writing an entry again -/

/-- An entry that lost nothing is written as it was. -/
theorem encode_constant {entry : Entry} (canonical : entry.Canonical) :
    entry.constant.encode = entry.bytes := by
  cases entry with
  | text payload fits =>
      have same := (ModifiedUtf8.exists_eq_encode_iff payload).mp canonical
      simp only [constant, bytes, Constant.encode, Constant.payload, same]
      rfl
  | plain k other => rfl

/-- Only an entry that lost nothing is written as it was, whatever stands behind it and
behind what is written. -/
theorem canonical_of_append_eq {entry : Entry} {rest rest' : List UInt8}
    (same : entry.constant.encode ++ rest = entry.bytes ++ rest') : entry.Canonical := by
  cases entry with
  | plain k other => trivial
  | text payload fits =>
      rw [Canonical, ModifiedUtf8.exists_eq_encode_iff]
      generalize written : ModifiedUtf8.encode (ModifiedUtf8.decode payload) = bytes
      have layout : bigEndian 2 bytes.length ++ (bytes ++ rest)
          = bigEndian 2 payload.length ++ (payload ++ rest') := by
        simp only [constant, Entry.bytes, Constant.encode, Constant.payload, written,
          List.append_assoc] at same
        exact List.append_cancel_left same
      obtain ⟨lengths, texts⟩ := List.append_inj layout (by simp only [bigEndian_length])
      -- The lengths agree as far as they are written, which is modulo 65536.
      have wrapped : bytes.length % 65536 = payload.length % 65536 :=
        mod_eq_of_bigEndian_eq lengths
      by_cases equal : bytes.length = payload.length
      · exact (List.append_inj texts equal).1
      · -- The encoding begins with the payload and is longer, by a multiple of 65536.
        have longer : payload.length + 65536 ≤ bytes.length := by omega
        have front : payload <+: bytes :=
          List.prefix_of_prefix_length_le (List.prefix_append payload rest')
            (texts ▸ List.prefix_append bytes rest) (by omega)
        obtain ⟨back, cut⟩ := front
        have far : 5 ≤ back.length := by
          rw [← cut, List.length_append] at longer
          omega
        exact absurd rfl (ModifiedUtf8.decode_ne_of_cut (written.trans cut.symm) far)

/-- Entries are written as they were exactly if each of them is. -/
theorem flatMap_encode_eq_iff (entries : List Entry) :
    (entries.map constant).flatMap Constant.encode = entries.flatMap bytes ↔
      ∀ entry ∈ entries, entry.Canonical := by
  induction entries with
  | nil => simp
  | cons entry entries ih =>
      rw [List.map_cons, List.flatMap_cons, List.flatMap_cons, List.forall_mem_cons, ← ih]
      constructor
      · intro same
        -- The first entry comes back whatever follows it, so it can be cut off both sides.
        have canonical := canonical_of_append_eq same
        rw [encode_constant canonical] at same
        exact ⟨canonical, List.append_cancel_left same⟩
      · rintro ⟨canonical, others⟩
        rw [encode_constant canonical, others]

end Entry

/-! ## Layouts -/

/-- Entries that fill a pool up to a count: each begins below the count, and the last ends
there or behind it. -/
def Fills (count : Nat) : Pool → List Entry → Prop
  | p, [] => count ≤ p.size
  | p, entry :: entries => p.size < count ∧ Fills count (p.push entry.constant).2 entries

instance decidableFills (count : Nat) :
    (p : Pool) → (entries : List Entry) → Decidable (Fills count p entries)
  | p, [] => inferInstanceAs (Decidable (count ≤ p.size))
  | p, entry :: entries =>
      have := decidableFills count (p.push entry.constant).2 entries
      inferInstanceAs (Decidable (p.size < count ∧ Fills count (p.push entry.constant).2 entries))

/-- The count and the entries that a pool is read from. -/
structure Layout where
  count : UInt16
  entries : List Entry
  fills : Fills count.toNat empty entries

namespace Layout

/-- The bytes of a layout. -/
def bytes (l : Layout) : List UInt8 := bytes16 l.count ++ l.entries.flatMap Entry.bytes

/-- What is read from the layout. -/
def pool (l : Layout) : Pool := ofConstants (l.entries.map Entry.constant)

/-- The last constant is wide, and goes one slot beyond the count. -/
def Overshoots (l : Layout) : Prop :=
  l.pool.size = l.count.toNat + 1 ∧ ∃ k, l.pool.constants.getLast? = some k ∧ k.IsWide

/-- The same bytes have the same layout. -/
theorem bytes_inj {l m : Layout} (same : l.bytes = m.bytes) : l = m := by
  have length : (bytes16 l.count).length = (bytes16 m.count).length := by
    rw [bytes16, bytes16, bigEndian_length, bigEndian_length]
  obtain ⟨counts, entries⟩ := List.append_inj same length
  have count_eq := bytes16_inj counts
  have entries_eq := Entry.flatMap_bytes_inj entries
  cases l
  cases m
  cases count_eq
  cases entries_eq
  rfl

end Layout

/-! ## Reading and layouts -/

/-- Filling a pool takes the bytes of entries that fill it. -/
theorem exists_fills_of_fill {count steps : Nat} {p q : Pool} {e : Ending} {c next : Cursor}
    (enough : count ≤ p.size + steps) (run : fill count steps p e c = .done q next) :
    ∃ entries, Fills count p entries ∧ q = p.pushAll (entries.map Entry.constant) ∧
      c.unread = entries.flatMap Entry.bytes ++ next.unread := by
  induction steps generalizing p c with
  | zero =>
      cases run
      exact ⟨[], enough, rfl, rfl⟩
  | succ steps ih =>
      unfold fill at run
      split at run
      · rename_i room
        split at run
        · rename_i k mid read
          obtain ⟨taken, unread, entry, spelled, same⟩ := Entry.takes_decode _ _ _ _ read
          -- A push adds a slot or two, so one round less is still enough.
          have grown := size_push p k
          have wide := k.width_pos
          obtain ⟨entries, fills, filled, unread'⟩ := ih (by omega) run
          refine ⟨entry :: entries, ⟨room, ?_⟩, ?_, ?_⟩
          · rw [same]
            exact fills
          · rw [List.map_cons, pushAll_cons, same]
            exact filled
          · rw [unread, unread', List.flatMap_cons, spelled, List.append_assoc]
        · cases run
      · rename_i full
        cases run
        exact ⟨[], Nat.le_of_not_lt full, rfl, rfl⟩

/-- A pool that was read came from a layout. -/
theorem decode_eq_done {e : Ending} {c next : Cursor} {p : Pool}
    (run : decode e c = .done p next) :
    ∃ l : Layout, l.pool = p ∧ c.unread = l.bytes ++ next.unread := by
  obtain ⟨count, mid, counted, run⟩ := bind_eq_done run
  obtain ⟨q, stop, filled, run⟩ := bind_eq_done run
  cases run
  obtain ⟨entries, fills, rfl, unread⟩ := exists_fills_of_fill (Nat.le_add_left _ _) filled
  refine ⟨⟨count, entries, fills⟩, rfl, ?_⟩
  rw [u16_eq_done counted, Layout.bytes, List.append_assoc]
  exact congrArg (bytes16 count ++ ·) unread

/-- Entries that fill a pool are read to the last one. -/
theorem reads_fill_entries {count steps : Nat} {p : Pool} {entries : List Entry}
    (fills : Fills count p entries) (enough : count ≤ p.size + steps) :
    Reads (fill count steps p : Decoder Pool) (entries.flatMap Entry.bytes)
      (p.pushAll (entries.map Entry.constant)) := by
  -- Each entry takes one round, and the rounds are enough because a constant takes a slot at least.
  induction entries generalizing p steps with
  | nil =>
      have full : count ≤ p.size := fills
      cases steps with
      | zero => exact .pure p
      | succ steps =>
          rw [fill_succ, if_neg (by omega)]
          exact .pure p
  | cons entry entries ih =>
      obtain ⟨room, fills⟩ := fills
      cases steps with
      | zero => omega
      | succ steps =>
          have grown := size_push p entry.constant
          have wide := entry.constant.width_pos
          rw [fill_succ, if_pos room, List.flatMap_cons]
          exact entry.reads_decode.bind (ih fills (by omega))

/-- A layout is read. -/
theorem Layout.reads_decode (l : Layout) : Reads decode l.bytes l.pool := by
  refine (Reads.u16 l.count).bind ?_
  have filled := reads_fill_entries l.fills (Nat.le_add_left l.count.toNat _)
  exact filled.before ((Reads.note _).map fun _ => l.pool)

/-! ## The count -/

/-- How far filling goes. -/
theorem Fills.size_pushAll {count : Nat} {p : Pool} {entries : List Entry}
    (fills : Fills count p entries) :
    let q := p.pushAll (entries.map Entry.constant)
    (entries = [] ∧ count ≤ p.size) ∨ q.size = count ∨
      q.size = count + 1 ∧ ∃ k, q.constants.getLast? = some k ∧ k.IsWide := by
  -- Only the last entry can go beyond the count, since all others end where the next one begins.
  induction entries generalizing p with
  | nil => exact .inl ⟨rfl, fills⟩
  | cons entry entries ih =>
      right
      obtain ⟨room, fills⟩ := fills
      rcases ih fills with ⟨rfl, full⟩ | exact_ | overshot
      · -- The entry was the last one, and began below the count.
        have grown := size_push p entry.constant
        have width := entry.constant.width_cases
        have last : (p.push entry.constant).2.constants.getLast? = some entry.constant := by
          rw [constants_push, List.getLast?_concat]
        simp only [List.map_cons, List.map_nil, pushAll_cons, pushAll_nil]
        by_cases here : (p.push entry.constant).2.size = count
        · exact .inl here
        · refine .inr ⟨by omega, entry.constant, last, ?_⟩
          rw [Constant.isWide_iff]
          omega
      · exact .inl exact_
      · exact .inr overshot

namespace Layout

/-- The count is the size, except that 0 is read as 1 and that a last wide constant may
overshoot. -/
theorem size_cases (l : Layout) :
    l.count = 0 ∧ l.pool.size = 1 ∨ l.pool.size = l.count.toNat ∨ l.Overshoots := by
  rcases l.fills.size_pushAll with ⟨nothing, full⟩ | exact_ | overshot
  · have size : l.pool.size = 1 := by
      rw [pool, nothing]
      rfl
    have one : empty.size = 1 := rfl
    by_cases zero : l.count.toNat = 0
    · exact .inl ⟨UInt16.toNat_inj.mp zero, size⟩
    · exact .inr (.inl (by omega))
  · exact .inr (.inl exact_)
  · exact .inr (.inr overshot)

theorem size_le (l : Layout) : l.pool.size ≤ l.count.toNat + 1 := by
  rcases l.size_cases with ⟨zero, size⟩ | size | ⟨size, -⟩
  · omega
  · omega
  · omega

theorem size_pos (l : Layout) : 0 < l.pool.size :=
  Nat.zero_lt_of_lt (size_ofConstants_pos (l.entries.map Entry.constant))

/-- The count is the size unless it is 0 or overshot. -/
theorem count_eq_size_iff (l : Layout) :
    l.count.toNat = l.pool.size ↔ l.count ≠ 0 ∧ ¬ l.Overshoots := by
  constructor
  · intro same
    refine ⟨?_, ?_⟩
    · intro zero
      have positive := l.size_pos
      rw [zero, UInt16.toNat_zero] at same
      omega
    · rintro ⟨size, -⟩
      omega
  · rintro ⟨nonzero, within⟩
    rcases l.size_cases with ⟨zero, -⟩ | size | overshot
    · exact absurd zero nonzero
    · exact size.symm
    · exact absurd overshot within

/-! ## Writing a layout again -/

/-- A pool is written as it was read exactly if its layout has the true count and each of its
texts is an encoding. -/
theorem encode_pool_eq_iff (l : Layout) :
    l.pool.encode = l.bytes ↔
      l.count.toNat = l.pool.size ∧ ∀ entry ∈ l.entries, entry.Canonical := by
  rw [← Entry.flatMap_encode_eq_iff, pool, encode_ofConstants, ← pool, bytes]
  constructor
  · intro same
    obtain ⟨counts, entries⟩ := List.append_inj same
      (by rw [bytes16, bigEndian_length, bigEndian_length])
    refine ⟨?_, entries⟩
    have wrapped : l.pool.size % 65536 = l.count.toNat % 65536 := mod_eq_of_bigEndian_eq counts
    -- A size that wraps is written as the count 0, and that count is read as one slot.
    have count := UInt16.toNat_lt l.count
    have small := l.size_le
    have positive := l.size_pos
    omega
  · rintro ⟨counts, entries⟩
    rw [entries, bytes16, counts]

/-- A layout that is written as it was holds no text beyond the range of its length. -/
theorem fits_of_canonical {l : Layout} (canonical : ∀ entry ∈ l.entries, entry.Canonical) :
    ∀ k ∈ l.entries.map Entry.constant, k.Fits := by
  intro k inside text same
  obtain ⟨entry, member, rfl⟩ := List.mem_map.mp inside
  cases entry with
  | plain k other => exact absurd same (other text)
  | text payload fits =>
      have again := (ModifiedUtf8.exists_eq_encode_iff payload).mp (canonical _ member)
      rw [← Constant.utf8.inj same, again]
      omega

end Layout

/-- **Reading a pool loses no byte exactly on canonical input.** The bytes that a pool was
read from have one layout. The pool is written as these bytes if and only if the count is
the size of the pool, which means that it is not 0 and that no last wide constant
overshoots it, and each text of the layout is written in the encoding of some text. -/
theorem encode_eq_consumed_iff {consumed rest : List UInt8} {p : Pool}
    (read : decode.verdict (consumed ++ rest) = .ok (p, rest)) :
    ∃ l : Layout, l.bytes = consumed ∧ l.pool = p ∧
      (∀ m : Layout, m.bytes = consumed → m = l) ∧
      (l.count.toNat = p.size ↔ l.count ≠ 0 ∧ ¬ l.Overshoots) ∧
      (p.encode = consumed ↔
        l.count.toNat = p.size ∧ ∀ entry ∈ l.entries, entry.Canonical) := by
  obtain ⟨_, run⟩ := run_of_verdict read
  obtain ⟨l, rfl, unread⟩ := decode_eq_done run
  obtain rfl : consumed = l.bytes := List.append_cancel_right unread
  exact ⟨l, rfl, rfl, fun m same => Layout.bytes_inj same, l.count_eq_size_iff,
    l.encode_pool_eq_iff⟩

/-- The letter A in two bytes instead of one: the count is right, and still the pool is
written in one byte less, because its only text is not canonical. -/
theorem overlongSample_encode_eq_consumed_iff :
    ∃ p, decode.verdict ([0, 2, 1, 0, 2, 0xC1, 0x81] ++ [9]) = .ok (p, [9]) ∧
      p.encode = [0, 2, 1, 0, 1, 0x41] ∧
      ∃ l : Layout, l.bytes = [0, 2, 1, 0, 2, 0xC1, 0x81] ∧ l.count.toNat = p.size ∧
        ¬ ∀ entry ∈ l.entries, entry.Canonical := by
  have read : decode.verdict ([0, 2, 1, 0, 2, 0xC1, 0x81] ++ [9])
      = .ok (⟨#[none, some (.utf8 "A")]⟩, [9]) := rfl
  have written : Pool.encode ⟨#[none, some (.utf8 "A")]⟩ = [0, 2, 1, 0, 1, 0x41] := by decide
  obtain ⟨l, spelled, pool, unique, count, rewritten⟩ := encode_eq_consumed_iff read
  -- The layout is the only one, so it is the one that is written out here.
  have two : l.count.toNat = 2 := by
    rw [← unique ⟨2, [.text [0xC1, 0x81] (by decide)], by decide⟩ rfl]
    rfl
  refine ⟨_, read, written, l, spelled, two, ?_⟩
  intro canonical
  have same := rewritten.mpr ⟨two, canonical⟩
  rw [written] at same
  exact absurd same (by decide)

/-! ## Reading what was written again -/

/-- A pool that is read back from its own bytes is within the limits of the format. -/
theorem limits_of_verdict_encode {p : Pool} (back : decode.verdict p.encode = .ok (p, [])) :
    p.size ≤ 65535 ∧ ∀ text, some (Constant.utf8 text) ∈ p.slots →
      (ModifiedUtf8.encode text).length ≤ 65535 := by
  obtain ⟨_, run⟩ := run_of_verdict back
  -- This layout is not the one that the pool first came from: its bytes were written.
  obtain ⟨l, rfl, unread⟩ := decode_eq_done run
  have same : l.pool.encode = l.bytes := unread.trans (List.append_nil _)
  obtain ⟨count, canonical⟩ := l.encode_pool_eq_iff.mp same
  refine ⟨?_, forall_fits_iff.mp (Layout.fits_of_canonical canonical)⟩
  have bound := UInt16.toNat_lt l.count
  omega

/-- **A pool that was read is read again from what is written of it, within the limits of
the format.** It must have at most 65535 slots, and no text of it may take more than 65535
bytes. A pool that was read is beyond the first limit only if a last wide constant
overshoots the count 65535, and a text is within the second if its payload was an encoding
or at most 21845 bytes long. -/
theorem rewritten_iff_of_verdict {bytes rest : List UInt8} {p : Pool}
    (read : decode.verdict bytes = .ok (p, rest)) :
    (decode.verdict p.encode = .ok (p, []) ↔
      p.size ≤ 65535 ∧ ∀ text, some (Constant.utf8 text) ∈ p.slots →
        (ModifiedUtf8.encode text).length ≤ 65535) ∧
    ∃ l : Layout, l.bytes ++ rest = bytes ∧ l.pool = p ∧
      (65535 < p.size → l.count = 65535 ∧ l.Overshoots) ∧
      ∀ payload fits, .text payload fits ∈ l.entries →
        (∃ s, payload = ModifiedUtf8.encode s) ∨ payload.length ≤ 21845 →
        (ModifiedUtf8.encode (ModifiedUtf8.decode payload)).length ≤ 65535 := by
  obtain ⟨_, run⟩ := run_of_verdict read
  obtain ⟨l, rfl, unread⟩ := decode_eq_done run
  refine ⟨⟨limits_of_verdict_encode, ?_⟩, l, unread.symm, rfl, ?_, ?_⟩
  · rintro ⟨small, texts⟩
    have h := (reads_decode small (forall_fits_iff.mpr texts)).verdict_append []
    rwa [List.append_nil] at h
  · intro large
    have bound := UInt16.toNat_lt l.count
    -- Of the three cases only an overshoot leads beyond 65535.
    rcases l.size_cases with ⟨_, size⟩ | size | overshot
    · omega
    · omega
    · refine ⟨UInt16.toNat_inj.mp ?_, overshot⟩
      have beyond := overshot.1
      show l.count.toNat = 65535
      omega
  · intro payload fits _ small
    rcases small with canonical | short
    · rw [(ModifiedUtf8.exists_eq_encode_iff payload).mp canonical]
      omega
    · have grown := ModifiedUtf8.length_encode_decode_le payload
      omega

/-- The letter A in two bytes is read again, as the letter A. -/
theorem overlongSample_rewritten :
    ∃ p, decode.verdict [0, 2, 1, 0, 2, 0xC1, 0x81] = .ok (p, []) ∧
      decode.verdict p.encode = .ok (p, []) := by
  have read : decode.verdict [0, 2, 1, 0, 2, 0xC1, 0x81]
      = .ok (⟨#[none, some (.utf8 "A")]⟩, []) := rfl
  refine ⟨_, read, (rewritten_iff_of_verdict read).1.mpr ⟨by decide, ?_⟩⟩
  intro text inside
  have same : text = "A" := by simpa using inside
  rw [same]
  decide

/-- 21846 bytes that start no unit, one more than fit when they are written again: the pool
that is read from them is not read from what is written of it. -/
theorem strayBytes_not_rewritten :
    ∃ p, decode.verdict ([0, 2, 1, 0x55, 0x56] ++ List.replicate 21846 0x80) = .ok (p, []) ∧
      decode.verdict p.encode ≠ .ok (p, []) := by
  have fits : (List.replicate 21846 (0x80 : UInt8)).length < 65536 := by
    rw [List.length_replicate]
    decide
  have fills : Fills 2 empty [.text (List.replicate 21846 0x80) fits] := by
    refine ⟨by decide, ?_⟩
    rw [Fills, size_push]
    exact Nat.le_refl 2
  let l : Layout := ⟨2, [.text (List.replicate 21846 0x80) fits], fills⟩
  have spelled : l.bytes = [0, 2, 1, 0x55, 0x56] ++ List.replicate 21846 0x80 := by
    show bytes16 2 ++ ((bytes8 1 ++ (bigEndian 2 (List.replicate 21846 (0x80 : UInt8)).length
      ++ List.replicate 21846 0x80)) ++ []) = _
    rw [List.length_replicate, List.append_nil]
    rfl
  have read := l.reads_decode.verdict_append []
  rw [List.append_nil, spelled] at read
  refine ⟨l.pool, read, ?_⟩
  intro back
  have inside : some (Constant.utf8 (ModifiedUtf8.decode (List.replicate 21846 0x80)))
      ∈ l.pool.slots := mem_slots_ofConstants.mpr (List.mem_singleton.mpr rfl)
  -- Each byte is read as one replacement character, and this is written in three.
  have short := (limits_of_verdict_encode back).2 _ inside
  rw [ModifiedUtf8.length_encode_decode_stray] at short
  omega

end Pool

end ClassOutline
