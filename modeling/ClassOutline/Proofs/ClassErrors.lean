import ClassOutline.Proofs.PoolInvariant
import ClassOutline.Proofs.StreamFailures

/-!
The errors of a class file tell the truth.

An error names a cause, and the cause can be found in the bytes: a wrong magic number is in
the first four of them, an unknown tag is where the reading of the pool at byte 8 stops, an
index that is blamed has no constant of the expected sort in that pool, and so on
(`Error.Justified`).

A class file is read in stages, and each stage has its own reasons to fail. Which stage it
was that failed is a matter of sequencing (`bind_eq_failed`). The stages in front of the
pool write nothing into the journal, so the pool is read as if its bytes stood alone
(`Class.header_eq_done`).
-/

set_option autoImplicit false

namespace ClassOutline

open Decoder

/-! ## Stages in front of the pool -/

namespace Decoder

variable {α β : Type}

/-- Writes nothing into the journal. -/
def Silent (p : Decoder α) : Prop :=
  ∀ e c x next, p e c = .done x next → next.journal = c.journal

namespace Silent

theorem pure (x : α) : Silent (pure x : Decoder α) := by
  intro e c y next run
  cases run
  rfl

theorem take (n : Nat) : Silent (take n) := by
  intro e c bytes next run
  unfold Decoder.take at run
  by_cases full : (c.unread.take n).length = n
  · rw [if_pos full] at run
    cases run
    rfl
  · rw [if_neg full] at run
    cases run

/-- A sequence is silent if its parts are. -/
theorem bind {p : Decoder α} {f : α → Decoder β} (hp : Silent p) (hf : ∀ x, Silent (f x)) :
    Silent (p >>= f) := by
  intro e c y next run
  obtain ⟨x, mid, first, second⟩ := bind_eq_done run
  rw [hf x e mid y next second, hp e c x mid first]

theorem word (width : Nat) : Silent (word width) := .bind (.take width) fun _ => .pure _

theorem u16 : Silent u16 := .bind (.word 2) fun _ => .pure _

theorem u32 : Silent u32 := .bind (.word 4) fun _ => .pure _

end Silent

/-- At a plain end of file every error but truncation is a reason of the decoder. -/
theorem Raises.of_ne_truncated {P : Error → Prop} {p : Decoder α} (raises : Raises P p)
    {c stop : Cursor} {error : Error} (run : p .endOfFile c = .failed error stop)
    (other : error ≠ .truncated) : P error :=
  (raises _ _ _ _ run).resolve_left other

end Decoder

namespace Class

/-- A magic number that is refused is the wrong one, and the first four bytes are it. -/
theorem decodeMagic_eq_failed {c stop : Cursor} {error : Error}
    (run : decodeMagic .endOfFile c = .failed error stop) (other : error ≠ .truncated) :
    ∃ magic rest, error = .badMagic magic ∧ magic ≠ classMagic ∧
      c.unread = bytes32 magic ++ rest := by
  rcases bind_eq_failed run with short | ⟨magic, mid, read, run⟩
  · have never : Raises (fun _ => False) u32 := Composed.u32.raises_const
    exact (never.of_ne_truncated short other).elim
  · by_cases right : magic = classMagic
    · rw [if_pos right] at run
      cases run
    · rw [if_neg right] at run
      cases run
      exact ⟨magic, _, rfl, right, u32_eq_done read⟩

/-- The right magic number takes four bytes, and leaves the journal alone. -/
theorem decodeMagic_eq_done {e : Ending} {c next : Cursor} (run : decodeMagic e c = .done () next) :
    c.unread = bytes32 classMagic ++ next.unread ∧ next.journal = c.journal := by
  obtain ⟨magic, mid, read, run⟩ := bind_eq_done run
  by_cases right : magic = classMagic
  · rw [if_pos right] at run
    cases run
    rw [u32_eq_done read, right]
    exact ⟨rfl, Silent.u32 _ _ _ _ read⟩
  · rw [if_neg right] at run
    cases run

/-- Behind the magic number and the version stands the rest of the bytes from byte 8 on. -/
theorem header_eq_done {e : Ending} {bytes : List UInt8} {mid next : Cursor} {version : Version}
    (magic : decodeMagic e (Cursor.start bytes) = .done () mid)
    (run : Version.decode e mid = .done version next) : next = Cursor.start (bytes.drop 8) := by
  obtain ⟨unread, journal⟩ := decodeMagic_eq_done magic
  have silent : Silent Version.decode := .bind .u16 fun _ => .bind .u16 fun _ => .pure _
  have quiet : next.journal = [] := (silent _ _ _ _ run).trans journal
  obtain ⟨minor, c₁, first, run⟩ := bind_eq_done run
  obtain ⟨major, c₂, second, run⟩ := bind_eq_done run
  cases run
  -- Four bytes of magic number and two words of version make eight.
  have front : bytes = (bytes32 classMagic ++ (bytes16 minor ++ bytes16 major)) ++ next.unread := by
    rw [u16_eq_done first, u16_eq_done second] at unread
    rw [List.append_assoc, List.append_assoc]
    exact unread
  have eight : (bytes32 classMagic ++ (bytes16 minor ++ bytes16 major)).length = 8 := by
    simp only [List.length_append, bytes16, bytes32, bigEndian_length]
  have behind : bytes.drop 8 = next.unread := by
    rw [front, ← eight, List.drop_left]
  rw [behind, Cursor.start, ← quiet]

end Class

/-! ## The truth of errors -/

/-- What an error says about the bytes of a class file that was refused with it. -/
def Error.Justified (settings : Settings) (bytes : List UInt8) : Error → Prop
  -- the class goes on beyond the last byte
  | truncated => Starved (Class.decode settings) (Cursor.start bytes)
  -- the first four bytes are another number
  | badMagic magic => (∃ rest, bytes = bytes32 magic ++ rest) ∧ magic ≠ 0xCAFEBABE
  -- the pool at byte 8 has a constant with this tag, which is none of the format
  | unknownTag tag => Pool.decode.verdict (bytes.drop 8) = .error (.unknownTag tag) ∧
      tag.toNat ∉ [1, 3, 4, 5, 6, 7, 8, 9, 10, 11, 12, 15, 16, 17, 18, 19, 20]
  -- the pool at byte 8 was read, and has no such constant at the index
  | unresolved index expected => ∃ pool rest,
      Pool.decode.verdict (bytes.drop 8) = .ok (pool, rest) ∧ pool.Lacks index expected
  -- strict mode refuses a marker
  | malformedAttribute name _ =>
      settings.strict = true ∧ (name = "Deprecated" ∨ name = "Synthetic")
  -- a plain end of file is no failure of the stream
  | failure _ => False

/-- The errors that a pool and strict mode account for. -/
def Pool.Explains (settings : Settings) (pool : Pool) (error : Error) : Prop :=
  (∃ index expected, error = .unresolved index expected ∧ pool.Lacks index expected) ∨
  ∃ kind reason, error = .malformedAttribute (AttributeKind.name kind) reason ∧
    settings.strict = true ∧ kind.IsMarker

/-- A pool that was read accounts for every error behind it. -/
theorem Class.raises_explained (settings : Settings) {pool : Pool} (formed : pool.WellFormed)
    (version : Version) :
    Raises (pool.Explains settings)
      (decodeBody pool.resolver (Attribute.decode settings pool.resolver) version pool) := by
  -- Index 0 is refused without a lookup, but it would have found nothing.
  have nothing : pool.Lacks 0 .classRef := by
    have first : pool.slots[(0 : UInt16).toNat]? = some none := formed.first
    intro k found
    rw [Pool.get?, first] at found
    cases found
  refine (raises_decodeBody settings pool.resolver version pool).mono ?_
  rintro error ((nameless | ⟨strict, isMarker⟩) | complains)
  · cases nameless
    exact .inl ⟨0, .classRef, rfl, nothing⟩
  · exact .inr ⟨_, _, rfl, strict, isMarker⟩
  · exact .inl (Pool.lacks_of_complains complains)

/-- **Errors tell the truth.** Every error that a class file is refused with is justified by
its bytes. -/
theorem Class.error_justified (settings : Settings) (bytes : List UInt8) (error : Error)
    (refused : (Class.decode settings).verdict bytes = .error error) :
    error.Justified settings bytes := by
  obtain ⟨stop, run⟩ := failed_of_verdict refused
  by_cases other : error = .truncated
  · rw [other] at run ⊢
    have streams := (Class.regular_decode settings).streams (Cursor.start bytes)
    exact streams.resolve_left ((raises_decode settings).not_settled Cause.not_truncated run)
  -- Which stage was it: the magic number, the version, the pool, or what stands behind it?
  rw [decode_eq] at run
  rcases bind_eq_failed run with failed | ⟨_, c₁, magic, run⟩
  · obtain ⟨magic, rest, rfl, wrong, unread⟩ := decodeMagic_eq_failed failed other
    exact ⟨⟨rest, unread⟩, wrong⟩
  rcases bind_eq_failed run with failed | ⟨version, c₂, versioned, run⟩
  · have never : Raises (fun _ => False) Version.decode := Version.composed_decode.raises_const
    exact (never.of_ne_truncated failed other).elim
  obtain rfl := header_eq_done magic versioned
  rcases bind_eq_failed run with failed | ⟨pool, c₃, filled, run⟩
  · have tags : Raises Constant.Refusal Pool.decode := Pool.composed_decode.raises_const
    obtain ⟨unknown⟩ := tags.of_ne_truncated failed other
    refine ⟨?_, unknown⟩
    rw [verdict, failed]
  · have read : Pool.decode.verdict (bytes.drop 8) = .ok (pool, c₃.unread) := by
      rw [verdict, filled]
    have explained := raises_explained settings (Pool.wellFormed_of_decode filled) version
    rcases explained.of_ne_truncated run other with
      ⟨index, expected, rfl, lacks⟩ | ⟨kind, reason, rfl, strict, isMarker⟩
    · exact ⟨pool, c₃.unread, read, lacks⟩
    · refine ⟨strict, ?_⟩
      rcases isMarker with rfl | rfl
      · exact .inl rfl
      · exact .inr rfl

/-- The index of the class leads to a class constant, and the index in that to a number. The
second one is blamed, since it is not a text. -/
def misnamedSample : List UInt8 :=
  [0xCA, 0xFE, 0xBA, 0xBE, 0, 0, 0, 52, 0, 3, 7, 0, 2, 3, 0, 0, 0, 9, 0, 0x21, 0, 1, 0, 0]

/-- It is index 2 that lacks a text. -/
theorem misnamedSample_justified :
    (Class.decode {}).verdict misnamedSample = .error (.unresolved 2 .utf8) ∧
    ∃ pool rest, Pool.decode.verdict (misnamedSample.drop 8) = .ok (pool, rest) ∧
      pool.Lacks 2 .utf8 := by
  have refused : (Class.decode {}).verdict misnamedSample = .error (.unresolved 2 .utf8) := rfl
  exact ⟨refused, Class.error_justified {} misnamedSample _ refused⟩

end ClassOutline
