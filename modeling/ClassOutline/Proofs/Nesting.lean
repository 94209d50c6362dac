import ClassOutline.Proofs.Composition

/-!
How deep attributes nest, and that it does not matter.

The decoder of attributes is told a bound on the depth, and runs out of it only if it is given
less than there are bytes. Once the bound is at least the number of unread bytes its value
plays no part (`Attribute.agree_decodeWithin_decode`), so `Attribute.decode` satisfies the
equation one would write it by (`Attribute.decode_eq_decodeWith`): an attribute is read by
`decodeWith`, and the attributes inside it by `decode` itself.

The three decoders that hand a bound down (`Class.decode`, `Attribute.decodeList`,
`Code.decode`) are freed from it in the same way: each is the decoder one would write with
`Attribute.decode` in the place of the nested reader. Everything that is proved of these
decoders starts from these equations, and the bound is not mentioned again.

The argument is the same for all. Everything read in front of a nested attribute goes forward,
so the nested reader is only ever called on a stream with no more bytes than the bound, and
inside an attribute on one with fewer, since the frame is read first.

None of the decoders of attributes is sequential, but up to any given length each of them is as
good as one (`Regular`), which is all that a property of single runs needs.
-/

set_option autoImplicit false

namespace ClassOutline

open Decoder

/-! ## Attributes inside attributes -/

/-- A frame is an index of two bytes and a length of four. -/
theorem Frame.advances_decode (r : Resolver) : Advances 6 (decode r) := by
  have parts : Advances (2 + (0 + (4 + (0 + 0)))) (decode r) :=
    .bind .u16 fun _ => .bind (r.sequential_ask _ _).forward fun _ => .bind .u32 fun _ =>
      .bind (.notes [_]) fun _ => .pure _
  exact parts

namespace Attribute

variable {settings : Settings} {r : Resolver}

/-- With a bound, attributes are read by steps that are known beforehand. -/
theorem sequential_decodeWithin (depth : Nat) : Sequential (decodeWithin settings r depth) :=
  (composed_decodeWithin settings depth).sequential_closed r

/-- What reads the attributes inside one is only called behind the frame. -/
theorem agree_decodeWith {n : Nat} {p q : Decoder Attribute} (forward : Forward p)
    (h : AgreeUpTo n p q) :
    AgreeUpTo (n + 6) (decodeWith settings r p) (decodeWith settings r q) :=
  .bind (Frame.advances_decode r) (.refl _ _) fun frame =>
    (composed_decodePayload frame).agree r forward h

/-- On an empty stream the first read fails, and ends it as a bound of 0 does. -/
theorem decodeWithin_of_empty (depth : Nat) {e : Ending} {c : Cursor}
    (empty : c.unread.length ≤ 0) : decodeWithin settings r depth e c = .failed e.error c := by
  -- The frame would be read first, and of that the index.
  cases depth with
  | zero => rfl
  | succ depth =>
      rw [decodeWithin, decodeWith, bind_apply, Frame.decode, bind_apply, u16_of_short (by omega)]

/-- Any two bounds that are not below the number of bytes do the same. -/
theorem agree_decodeWithin (n : Nat) : ∀ {a b : Nat}, n ≤ a → n ≤ b →
    AgreeUpTo n (decodeWithin settings r a) (decodeWithin settings r b) := by
  induction n with
  | zero =>
      intro a b _ _ e c empty
      rw [decodeWithin_of_empty a empty, decodeWithin_of_empty b empty]
  | succ n ih =>
      intro a b ha hb
      obtain ⟨a, rfl⟩ : ∃ k, a = k + 1 := ⟨a - 1, by omega⟩
      obtain ⟨b, rfl⟩ : ∃ k, b = k + 1 := ⟨b - 1, by omega⟩
      -- One level down the bound is one less, and so is the number of bytes at least.
      have deeper : AgreeUpTo (n + 6) (decodeWithin settings r (a + 1))
          (decodeWithin settings r (b + 1)) :=
        agree_decodeWith (sequential_decodeWithin a).forward
          (ih (Nat.le_of_succ_le_succ ha) (Nat.le_of_succ_le_succ hb))
      exact deeper.mono (by omega)

/-- Up to `depth` bytes, the bound `depth` plays no part. -/
theorem agree_decodeWithin_decode (settings : Settings) (r : Resolver) (depth : Nat) :
    AgreeUpTo depth (decodeWithin settings r depth) (decode settings r) :=
  fun e c room => agree_decodeWithin _ room (Nat.le_refl _) e c (Nat.le_refl _)

/-- The decoder of attributes reads the attributes inside one by itself. -/
theorem decode_eq_decodeWith :
    decode settings r = decodeWith settings r (decode settings r) := by
  funext e c
  -- With one level more than there are bytes, a level can be spent on this attribute.
  have outside : decodeWithin settings r (c.unread.length + 1) e c = decode settings r e c :=
    agree_decodeWithin_decode settings r _ e c (Nat.le_succ _)
  rw [← outside]
  exact agree_decodeWith (sequential_decodeWithin _).forward
    (agree_decodeWithin_decode settings r _) e c (Nat.le_add_right _ 6)

end Attribute

/-! ## Without a depth -/

section Unbounded

variable (settings : Settings) (r : Resolver)

/-- A context that is told a bound for its attributes is the context of `Attribute.decode`. -/
theorem Context.withUnread_eq {α : Type} {F : AttributeReader → Decoder α} (hF : Context F) :
    (withUnread fun depth => F fun r => Attribute.decodeWithin settings r depth)
      = F (Attribute.decode settings) := by
  funext e c
  exact hF.agree (fun _ => (Attribute.sequential_decodeWithin _).forward)
    (fun r => Attribute.agree_decodeWithin_decode settings r c.unread.length) e c (Nat.le_refl _)

/-- A list of attributes is a count and that many attributes. -/
theorem Attribute.decodeList_eq : decodeList settings r = counted (decode settings r) :=
  (Attribute.context_counted r).withUnread_eq settings

/-- A method body reads its attributes like any other. -/
theorem Code.decode_eq :
    Code.decode settings r = Code.decodeWith r (Attribute.decode settings r) :=
  (Code.context_decodeWith r).withUnread_eq settings

/-- So does a class, once it has its constant pool. -/
theorem Class.decode_eq :
    Class.decode settings = Class.decodeWith (Attribute.decode settings) :=
  Class.context_decodeWith.withUnread_eq settings

/-! ## Up to a length -/

/-- Up to any length, no different from some sequential decoder. -/
def Decoder.Regular {α : Type} (p : Decoder α) : Prop :=
  ∀ n, ∃ q, Sequential q ∧ AgreeUpTo n q p

/-- What reads its attributes by `Attribute.decode` is regular: with a bound it is
sequential. -/
theorem Context.regular {α : Type} {F : AttributeReader → Decoder α} (hF : Context F) :
    Regular (F (Attribute.decode settings)) := by
  intro n
  have bounded : ∀ r, Sequential (Attribute.decodeWithin settings r n) :=
    fun _ => Attribute.sequential_decodeWithin n
  -- The bound `n` is enough for every stream of that length, nested or not.
  exact ⟨_, hF.sequential bounded, hF.agree (fun r => (bounded r).forward)
    fun r => Attribute.agree_decodeWithin_decode settings r n⟩

/-- One attribute is read by a call of the reader. -/
theorem Attribute.regular_decode : Regular (decode settings r) :=
  (Context.call r).regular settings

/-- A list of them by calls behind a count. -/
theorem Attribute.regular_decodeList : Regular (decodeList settings r) := by
  rw [decodeList_eq]
  exact (Attribute.context_counted r).regular settings

/-- A method body by calls behind its tables. -/
theorem Code.regular_decode : Regular (Code.decode settings r) := by
  rw [Code.decode_eq]
  exact (Code.context_decodeWith r).regular settings

/-- A class by calls in its fields, in its methods and behind them. -/
theorem Class.regular_decode : Regular (Class.decode settings) := by
  rw [Class.decode_eq]
  exact Class.context_decodeWith.regular settings

end Unbounded

end ClassOutline
