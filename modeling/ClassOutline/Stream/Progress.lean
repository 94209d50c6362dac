import ClassOutline.Stream.Decoder

/-!
Decoders only go forward, and what that says about recursion.

A decoder is *sequential* if it is made of reads, reports and failures, one after the
other. This says how it was put together, and not what it does; a property of the reads
that sequencing keeps is then a property of every such decoder, by one induction. The
first such property is here: a sequential decoder never leaves more bytes unread than it
found (`Sequential.forward`).

Two decoders *agree up to* `n` if they come to the same outcome on every stream with at
most `n` unread bytes. A part in front that goes forward keeps agreement, and one that uses
up `k` bytes raises it by `k` (`AgreeUpTo.bind`), which is why a decoder that calls itself
only after a read needs no more depth than there are bytes.
-/

set_option autoImplicit false

namespace ClassOutline.Decoder

variable {α β : Type}

/-! ## Sequential decoders -/

/-- Made by sequencing reads, reports and failures. -/
inductive Sequential : {α : Type} → Decoder α → Prop
  | pure {α : Type} (x : α) : Sequential (pure x : Decoder α)
  | bind {α β : Type} {p : Decoder α} {f : α → Decoder β} :
      Sequential p → (∀ x, Sequential (f x)) → Sequential (p >>= f)
  | take (n : Nat) : Sequential (take n)
  | notes (events : List Event) : Sequential (notes events)
  | fail {α : Type} (error : Error) : Sequential (fail error : Decoder α)
  | exhausted {α : Type} : Sequential (exhausted : Decoder α)

theorem Sequential.ofExcept (result : Except Error α) : Sequential (ofExcept result) := by
  cases result with
  | ok x => exact .pure x
  | error error => exact .fail error

/-! ## Going forward -/

/-- A run that comes to its end has used up at least `n` bytes. -/
def Advances (n : Nat) (p : Decoder α) : Prop :=
  ∀ e c x next, p e c = .done x next → next.unread.length + n ≤ c.unread.length

/-- No more bytes are unread after a run than before. -/
abbrev Forward (p : Decoder α) : Prop := Advances 0 p

theorem Advances.bind {k l : Nat} {p : Decoder α} {f : α → Decoder β} (hp : Advances k p)
    (hf : ∀ x, Advances l (f x)) : Advances (k + l) (p >>= f) := by
  intro e c y next run
  rw [bind_apply] at run
  cases first : p e c with
  | failed error stop =>
      rw [first] at run
      cases run
  | done x mid =>
      rw [first] at run
      have before := hp e c x mid first
      have behind := hf x e mid y next run
      omega

theorem Advances.mono {k l : Nat} (le : l ≤ k) {p : Decoder α} (hp : Advances k p) :
    Advances l p := by
  intro e c x next run
  have := hp e c x next run
  omega

theorem Advances.pure (x : α) : Forward (pure x : Decoder α) := by
  intro e c y next run
  cases run
  exact Nat.le_refl _

theorem Advances.notes (events : List Event) : Forward (notes events) := by
  intro e c y next run
  cases run
  exact Nat.le_refl _

theorem Advances.take (n : Nat) : Advances n (take n) := by
  intro e c y next run
  unfold Decoder.take at run
  dsimp only at run
  split at run
  next full =>
    cases run
    rw [List.length_take] at full
    rw [List.length_drop]
    omega
  next => cases run

theorem Advances.word (width : Nat) : Advances width (word width) :=
  .bind (.take width) fun _ => .pure _

theorem Advances.u16 : Advances 2 u16 := .bind (.word 2) fun _ => .pure _

theorem Advances.u32 : Advances 4 u32 := .bind (.word 4) fun _ => .pure _

theorem Sequential.forward {p : Decoder α} (h : Sequential p) : Forward p := by
  induction h with
  | bind _ _ hp hf => exact .bind hp hf
  | take n => exact (Advances.take n).mono (Nat.zero_le n)
  | pure x => exact .pure x
  | notes events => exact .notes events
  | fail error | exhausted =>
      intro e c y next run
      cases run

/-! ## Reading beyond the end -/

theorem take_of_short {n : Nat} {c : Cursor} (short : c.unread.length < n) (e : Ending) :
    take n e c = .failed e.error c := by
  unfold Decoder.take
  dsimp only
  rw [if_neg]
  rw [List.length_take]
  omega

theorem u16_of_short {c : Cursor} (short : c.unread.length < 2) (e : Ending) :
    u16 e c = .failed e.error c := by
  simp only [Decoder.u16, Decoder.word, bind_apply, take_of_short short]

/-! ## Agreement -/

/-- The same outcome on every stream with at most `n` unread bytes. -/
def AgreeUpTo (n : Nat) (p q : Decoder α) : Prop :=
  ∀ e c, c.unread.length ≤ n → p e c = q e c

theorem AgreeUpTo.refl (n : Nat) (p : Decoder α) : AgreeUpTo n p p := fun _ _ _ => rfl

theorem AgreeUpTo.mono {m n : Nat} (le : m ≤ n) {p q : Decoder α} (h : AgreeUpTo n p q) :
    AgreeUpTo m p q :=
  fun e c room => h e c (Nat.le_trans room le)

/-- Agreement of two parts is agreement of the whole, and the bytes that the first part uses up
are gained. -/
theorem AgreeUpTo.bind {n k : Nat} {p q : Decoder α} {f g : α → Decoder β} (hp : Advances k p)
    (h : AgreeUpTo (n + k) p q) (hf : ∀ x, AgreeUpTo n (f x) (g x)) :
    AgreeUpTo (n + k) (p >>= f) (q >>= g) := by
  intro e c room
  rw [bind_apply, bind_apply, ← h e c room]
  cases first : p e c with
  | failed error stop => rfl
  | done x next =>
      have used := hp e c x next first
      exact hf x e next (by omega)

end ClassOutline.Decoder
