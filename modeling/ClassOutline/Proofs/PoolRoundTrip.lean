import ClassOutline.Proofs.ExactRead
import ClassOutline.Proofs.PoolGrowth
import ClassOutline.Proofs.TextCodec

/-!
When a constant pool survives being written and read.

Two lengths in the format are sixteen bits wide and are written modulo that range:
the number of slots, and the length of a text in bytes. Within the range every pool
that is built by pushes is read back exactly (`reads_decode`).

Outside it the pool that is read is never the pool that was written, and this needs
an argument for each length. A count that wrapped is below 65536, and filling stops
as soon as it is reached, so the pool read is too small (`size_fill_le`). A text whose
length wrapped is read as a front of its encoding that lacks 65536 bytes or more, and
that is another text (`ModifiedUtf8.decode_ne_of_cut`); since filling only appends, the
wrong text stays in the pool, and no later constant can make up for it
(`fits_of_fill`).
-/

set_option autoImplicit false

namespace ClassOutline

open Decoder

/-! ## Constants -/

namespace Constant

/-- The length of a text fits its field. -/
def Fits (k : Constant) : Prop :=
  ∀ text, k = utf8 text → (ModifiedUtf8.encode text).length ≤ 65535

/-- A text is read by the length in front of it, which is the true one modulo 65536. -/
theorem reads_decode_utf8 {n : Nat} {bytes : List UInt8} (length : bytes.length = n % 65536) :
    Reads decode (bytes8 1 ++ (bigEndian 2 n ++ bytes)) (utf8 (ModifiedUtf8.decode bytes)) := by
  refine (Reads.u8 1).bind ?_
  show Reads decodeText _ _
  refine (Reads.length16 n).bind ?_
  have count : bytes.length = (UInt16.ofNat n).toNat := by
    rw [UInt16.toNat_ofNat', length]
  exact (Reads.take count).map fun bytes => utf8 (ModifiedUtf8.decode bytes)

/-- A constant that fits is read back. -/
theorem reads_decode {k : Constant} (fits : k.Fits) : Reads decode k.encode k := by
  have index : ∀ (make : UInt16 → Constant) (i : UInt16),
      Reads (decodeIndex make) (bytes16 i) (make i) :=
    fun make i => (Reads.u16 i).map make
  have pair : ∀ (make : UInt16 → UInt16 → Constant) (i j : UInt16),
      Reads (decodePair make) (bytes16 i ++ bytes16 j) (make i j) :=
    fun make i j => (Reads.u16 i).bind ((Reads.u16 j).map (make i))
  -- Only the length of a text is written modulo its range. Every other constant is its tag and
  -- words that fit.
  cases k with
  | utf8 text =>
      have short := fits text rfl
      have length : (ModifiedUtf8.encode text).length
          = (ModifiedUtf8.encode text).length % 65536 := by
        omega
      have h := reads_decode_utf8 length
      rwa [ModifiedUtf8.decode_encode] at h
  | integer value => exact (Reads.u8 3).bind ((Reads.i32 value).map integer)
  | float bits => exact (Reads.u8 4).bind ((Reads.u32 bits).map float)
  | long value => exact (Reads.u8 5).bind ((Reads.i64 value).map long)
  | double bits => exact (Reads.u8 6).bind ((Reads.u64 bits).map double)
  | classRef name => exact (Reads.u8 7).bind (index classRef name)
  | stringRef text => exact (Reads.u8 8).bind (index stringRef text)
  | fieldRef owner signature => exact (Reads.u8 9).bind (pair fieldRef owner signature)
  | methodRef owner signature isInterface =>
      cases isInterface with
      | false => exact (Reads.u8 10).bind (pair (methodRef · · false) owner signature)
      | true => exact (Reads.u8 11).bind (pair (methodRef · · true) owner signature)
  | nameAndType name descriptor => exact (Reads.u8 12).bind (pair nameAndType name descriptor)
  | methodHandle kind member =>
      exact (Reads.u8 15).bind ((Reads.u8 kind).bind ((Reads.u16 member).map (methodHandle kind)))
  | methodType descriptor => exact (Reads.u8 16).bind (index methodType descriptor)
  | dynamic bootstrap signature => exact (Reads.u8 17).bind (pair dynamic bootstrap signature)
  | invokeDynamic bootstrap signature =>
      exact (Reads.u8 18).bind (pair invokeDynamic bootstrap signature)
  | moduleRef name => exact (Reads.u8 19).bind (index moduleRef name)
  | packageRef name => exact (Reads.u8 20).bind (index packageRef name)

/-- Only a constant that fits is read back. -/
theorem fits_of_decode {k : Constant} {e : Ending} {rest : List UInt8} {journal : List Event}
    {next : Cursor} (run : decode e ⟨k.encode ++ rest, journal⟩ = .done k next) : k.Fits := by
  rintro text rfl
  by_contra long
  generalize size : (ModifiedUtf8.encode text).length = n at long
  have written : (utf8 text).encode = bytes8 1 ++ (bigEndian 2 n ++ ModifiedUtf8.encode text) := by
    rw [← size]
    rfl
  -- `front` is what the reader takes for the text, and `back` what it leaves of it.
  obtain ⟨front, back, cut, short, far⟩ : ∃ front back, ModifiedUtf8.encode text = front ++ back ∧
      front.length = n % 65536 ∧ 5 ≤ back.length := by
    refine ⟨(ModifiedUtf8.encode text).take (n % 65536),
      (ModifiedUtf8.encode text).drop (n % 65536), (List.take_append_drop _ _).symm, ?_, ?_⟩
    · rw [List.length_take]
      omega
    · rw [List.length_drop]
      omega
  have layout : (utf8 text).encode ++ rest
      = (bytes8 1 ++ (bigEndian 2 n ++ front)) ++ (back ++ rest) := by
    rw [written, cut]
    simp only [List.append_assoc]
  obtain ⟨journal', taken⟩ := reads_decode_utf8 short e (back ++ rest) journal
  rw [layout, taken] at run
  injection run with same _
  injection same with same
  exact ModifiedUtf8.decode_ne_of_cut cut far same

end Constant

/-! ## Filling a pool -/

namespace Pool

/-- What holds of a pool and is kept by every constant that is read holds of the
pool in the end. -/
theorem fill_induction {count : Nat} {P : Pool → Prop}
    (push : ∀ q k, q.size < count → P q → P (q.push k).2) {steps : Nat} {p q : Pool} {e : Ending}
    {c next : Cursor} (start : P p) (run : fill count steps p e c = .done q next) : P q := by
  -- The property is that of the pool so far, and each round adds one constant.
  induction steps generalizing p c with
  | zero =>
      cases run
      exact start
  | succ steps ih =>
      unfold fill at run
      split at run
      · rename_i room
        split at run
        · rename_i k mid _
          exact ih (push p k room start) run
        · cases run
      · cases run
        exact start

/-- Filling only appends. -/
theorem fill_appends {count steps : Nat} {p q : Pool} {e : Ending} {c next : Cursor}
    (run : fill count steps p e c = .done q next) : ∃ ks, q = p.pushAll ks := by
  refine fill_induction (P := fun q => ∃ ks, q = p.pushAll ks) ?_ ⟨[], rfl⟩ run
  rintro _ k _ ⟨ks, rfl⟩
  exact ⟨ks ++ [k], by rw [pushAll, pushAll, List.foldl_append]; rfl⟩

/-- Filling stops at the count, or one slot behind it. -/
theorem size_fill_le {count steps : Nat} {p q : Pool} {e : Ending} {c next : Cursor}
    (run : fill count steps p e c = .done q next) : q.size ≤ max p.size (count + 1) := by
  refine fill_induction (P := fun q => q.size ≤ max p.size (count + 1)) ?_ (by omega) run
  intro q k room _
  have narrow : k.width ≤ 2 := by
    cases k <;> simp [Constant.width]
  rw [size_push]
  omega

/-- Constants that fit fill the pool they were pushed to. -/
theorem reads_fill {count steps : Nat} {p : Pool} {ks : List Constant}
    (fits : ∀ k ∈ ks, k.Fits) (full : (p.pushAll ks).size = count) (enough : ks.length ≤ steps) :
    Reads (fill count steps p : Decoder Pool) (ks.flatMap Constant.encode) (p.pushAll ks) := by
  induction ks generalizing p steps with
  | nil =>
      rw [pushAll_nil] at full ⊢
      cases steps with
      | zero => exact .pure p
      | succ steps =>
          rw [fill_succ, if_neg (by omega)]
          exact .pure p
  | cons k ks ih =>
      cases steps with
      | zero =>
          rw [List.length_cons] at enough
          omega
      | succ steps =>
          -- A constant is left to be read, so the slot that it took is still missing.
          have room : p.size < count := by
            have grown := length_le_size_pushAll p (k :: ks)
            rw [List.length_cons] at grown
            omega
          rw [fill_succ, if_pos room, List.flatMap_cons]
          refine (Constant.reads_decode (fits k (by simp))).bind ?_
          exact ih (fun l hl => fits l (by simp [hl])) full (by simpa using enough)

/-- Constants that fill the pool they were pushed to all fit. The induction follows
the constants that were written; that the one read in each round is the one written
is known only at the end, because filling appends. -/
theorem fits_of_fill {count steps : Nat} {p : Pool} {ks : List Constant} {e : Ending}
    {rest : List UInt8} {journal : List Event} {next : Cursor}
    (run : fill count steps p e ⟨ks.flatMap Constant.encode ++ rest, journal⟩
      = .done (p.pushAll ks) next) : ∀ k ∈ ks, k.Fits := by
  induction ks generalizing p steps journal with
  | nil =>
      intro k hk
      cases hk
  | cons k ks ih =>
      have unfinished : p ≠ p.pushAll (k :: ks) := by
        intro same
        have grown := length_le_size_pushAll p (k :: ks)
        rw [← same, List.length_cons] at grown
        omega
      rw [List.flatMap_cons, List.append_assoc] at run
      cases steps with
      | zero =>
          injection run with same _
          exact absurd same unfinished
      | succ steps =>
          unfold fill at run
          split at run
          · split at run
            · rename_i k' mid read
              -- `k'` is the constant that was read where `k` was written.
              obtain ⟨ks', appended⟩ := fill_appends run
              have same : k :: ks = k' :: ks' := pushAll_inj appended
              injection same with head _
              subst head
              have fits : k.Fits := Constant.fits_of_decode read
              obtain ⟨journal', exact⟩ := Constant.reads_decode fits e
                (ks.flatMap Constant.encode ++ rest) journal
              rw [exact] at read
              injection read with _ here
              subst here
              intro l hl
              rcases List.mem_cons.mp hl with rfl | hl
              · exact fits
              · exact ih run l hl
            · cases run
          · injection run with same _
            exact absurd same unfinished

/-! ## Pools -/

/-- A pool built by pushes is written as its size and its constants. -/
theorem encode_ofConstants (ks : List Constant) :
    (ofConstants ks).encode
      = bigEndian 2 (ofConstants ks).size ++ ks.flatMap Constant.encode := by
  rw [encode]
  exact congrArg (fun ls => _ ++ List.flatMap Constant.encode ls) (constants_ofConstants ks)

theorem size_ofConstants_pos (ks : List Constant) : ks.length < (ofConstants ks).size := by
  have grown := length_le_size_pushAll empty ks
  have one : empty.size = 1 := rfl
  rw [ofConstants]
  omega

/-- The texts that are bounded are those found in the slots. -/
theorem forall_fits_iff {ks : List Constant} :
    (∀ k ∈ ks, k.Fits) ↔ ∀ text, some (Constant.utf8 text) ∈ (ofConstants ks).slots →
      (ModifiedUtf8.encode text).length ≤ 65535 := by
  constructor
  · intro fits text inside
    exact fits _ (mem_slots_ofConstants.mp inside) text rfl
  · rintro short k inside text rfl
    exact short text (mem_slots_ofConstants.mpr inside)

/-- Within the limits of the format a pool is read back. -/
theorem reads_decode {ks : List Constant} (small : (ofConstants ks).size ≤ 65535)
    (fits : ∀ k ∈ ks, k.Fits) : Reads decode (ofConstants ks).encode (ofConstants ks) := by
  rw [encode_ofConstants]
  refine (Reads.length16 _).bind ?_
  have count : (UInt16.ofNat (ofConstants ks).size).toNat = (ofConstants ks).size := by
    rw [UInt16.toNat_ofNat']
    omega
  have enough : ks.length ≤ (ofConstants ks).size := by
    have grown := size_ofConstants_pos ks
    omega
  rw [count]
  have filled := reads_fill (p := empty) fits rfl enough
  exact filled.before ((Reads.note _).map fun _ => ofConstants ks)

/-- A pool that is read back was filled, by the count that was written. -/
theorem fill_of_verdict {ks : List Constant} {rest : List UInt8}
    (back : decode.verdict ((ofConstants ks).encode ++ rest) = .ok (ofConstants ks, rest)) :
    ∃ journal next, fill ((ofConstants ks).size % 65536) ((ofConstants ks).size % 65536) empty
      .endOfFile ⟨ks.flatMap Constant.encode ++ rest, journal⟩ = .done (ofConstants ks) next := by
  obtain ⟨_, run⟩ := run_of_verdict back
  rw [encode_ofConstants, List.append_assoc] at run
  obtain ⟨n, mid, counted, run⟩ := bind_eq_done run
  obtain ⟨journal, counted'⟩ := Reads.length16 (ofConstants ks).size .endOfFile
    (ks.flatMap Constant.encode ++ rest) []
  rw [counted', Outcome.done.injEq] at counted
  obtain ⟨rfl, rfl⟩ := counted
  obtain ⟨q, next, filled, run⟩ := bind_eq_done run
  -- Behind the filling there is only a report.
  cases run
  rw [UInt16.toNat_ofNat'] at filled
  exact ⟨journal, next, filled⟩

/-- **A constant pool survives exactly within the limits of the format.** A pool built
by pushes, written and read back in front of any bytes, is the same pool with these
bytes unread if and only if its size and the length of each of its texts fit sixteen
bits. -/
theorem verdict_encode_eq_iff (ks : List Constant) (rest : List UInt8) :
    decode.verdict ((ofConstants ks).encode ++ rest) = .ok (ofConstants ks, rest) ↔
      (ofConstants ks).size ≤ 65535 ∧
      ∀ text, some (Constant.utf8 text) ∈ (ofConstants ks).slots →
        (ModifiedUtf8.encode text).length ≤ 65535 := by
  rw [← forall_fits_iff]
  constructor
  · intro back
    obtain ⟨journal, next, run⟩ := fill_of_verdict back
    refine ⟨?_, fits_of_fill run⟩
    -- The count that was written is below 65536, and the pool is at most one above it.
    have large := size_fill_le run
    have one : empty.size = 1 := rfl
    omega
  · rintro ⟨small, fits⟩
    exact (reads_decode small fits).verdict_append rest

end Pool

end ClassOutline
