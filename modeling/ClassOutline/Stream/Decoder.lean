import ClassOutline.Error
import ClassOutline.Stream.Event
import ClassOutline.Stream.Word

/-!
Decoders: sequential readers of a byte stream.

A decoder is a function of how the stream ends and of a cursor, the bytes not
read yet together with the journal kept so far. It either finishes with a value
and the cursor after it, or fails with an error and the cursor it stopped at.
The ending is a constant of the run: it is consulted only when a read needs a
byte that is not there, so a read of zero bytes always succeeds
(`take_zero`), and a read of bytes that are there never sees it.

Lists of the format are read by `times`, which runs in constant stack;
`times_succ` is the equation to reason with.
-/

set_option autoImplicit false

namespace ClassOutline

/-! ## Cursors and outcomes -/

/-- How a stream behaves once its bytes are used up. -/
inductive Ending where
  | endOfFile
  | failing (cause : Failure)
  deriving DecidableEq, Repr

/-- The error of a read that needs a byte beyond the last one. -/
def Ending.error : Ending → Error
  | .endOfFile => .truncated
  | .failing cause => .ofFailure cause

/-- A position in a stream: the bytes still unread, and the journal so far with
its newest entry first. -/
structure Cursor where
  unread : List UInt8
  journal : List Event
  deriving DecidableEq, Repr

/-- The cursor in front of the given bytes. -/
def Cursor.start (bytes : List UInt8) : Cursor := ⟨bytes, []⟩

/-- The journal in the order it was written. -/
def Cursor.events (c : Cursor) : List Event := c.journal.reverse

/-- What a decoder comes to. -/
inductive Outcome (α : Type) where
  | done (value : α) (next : Cursor)
  | failed (error : Error) (stop : Cursor)

namespace Outcome

variable {α : Type}

/-- The value, or the error. -/
def result : Outcome α → Except Error α
  | done value _ => .ok value
  | failed error _ => .error error

/-- Where the decoder stopped. -/
def cursor : Outcome α → Cursor
  | done _ next => next
  | failed _ stop => stop

end Outcome

/-- A sequential reader of a byte stream. -/
def Decoder (α : Type) : Type := Ending → Cursor → Outcome α

namespace Decoder

variable {α β : Type}

/-! ## Sequencing -/

@[inline] protected def pure (x : α) : Decoder α := fun _ c => .done x c

@[inline] protected def bind (p : Decoder α) (f : α → Decoder β) : Decoder β := fun e c =>
  match p e c with
  | .done x c => f x e c
  | .failed error c => .failed error c

instance : Monad Decoder where
  pure := Decoder.pure
  bind := Decoder.bind

theorem pure_apply (x : α) (e : Ending) (c : Cursor) : (pure x : Decoder α) e c = .done x c := rfl

theorem bind_apply (p : Decoder α) (f : α → Decoder β) (e : Ending) (c : Cursor) :
    (p >>= f) e c = match p e c with
      | .done x c => f x e c
      | .failed error c => .failed error c := rfl

instance : LawfulMonad Decoder :=
  LawfulMonad.mk' Decoder
    (fun p => by
      funext e c
      show Decoder.bind p (fun x => Decoder.pure x) e c = p e c
      unfold Decoder.bind Decoder.pure
      cases p e c <;> rfl)
    (fun _ _ => rfl)
    (fun p f g => by
      funext e c
      show Decoder.bind (Decoder.bind p f) g e c
        = Decoder.bind p (fun x => Decoder.bind (f x) g) e c
      unfold Decoder.bind
      cases p e c <;> rfl)

/-! ## Failing and reporting -/

/-- Stop with an error. -/
@[inline] def fail (error : Error) : Decoder α := fun _ c => .failed error c

/-- Go on with the value of a computation that may have failed. -/
@[inline] def ofExcept : Except Error α → Decoder α
  | .ok x => pure x
  | .error error => fail error

/-- Stop as a read beyond the last byte does. -/
@[inline] def exhausted : Decoder α := fun e c => .failed e.error c

/-- Write an entry into the journal. -/
@[inline] def note (event : Event) : Decoder Unit := fun _ c =>
  .done () { c with journal := event :: c.journal }

/-- Write several entries into the journal, in order. -/
@[inline] def notes (events : List Event) : Decoder Unit := fun _ c =>
  .done () { c with journal := events.reverse ++ c.journal }

/-! ## Reading bytes -/

/-- Read exactly `n` bytes. -/
def take (n : Nat) : Decoder (List UInt8) := fun e c =>
  let front := c.unread.take n
  if front.length = n then .done front { c with unread := c.unread.drop n }
  else .failed e.error c

/-- Read over exactly `n` bytes. -/
def skip (n : Nat) : Decoder Unit := do
  let _ ← take n

theorem take_zero (e : Ending) (c : Cursor) : take 0 e c = .done [] c := by
  simp [take]

theorem take_append (bytes rest : List UInt8) (journal : List Event) (e : Ending) :
    take bytes.length e ⟨bytes ++ rest, journal⟩ = .done bytes ⟨rest, journal⟩ := by
  simp [take]

/-! ## Words of the format -/

/-- A big-endian number of `width` bytes. -/
def word (width : Nat) : Decoder Nat := do
  let bytes ← take width
  pure (ofBigEndian bytes)

def u8 : Decoder UInt8 := do
  let n ← word 1
  pure (UInt8.ofNat n)

def u16 : Decoder UInt16 := do
  let n ← word 2
  pure (UInt16.ofNat n)

def u32 : Decoder UInt32 := do
  let n ← word 4
  pure (UInt32.ofNat n)

def u64 : Decoder UInt64 := do
  let n ← word 8
  pure (UInt64.ofNat n)

def i32 : Decoder Int32 := do
  let w ← u32
  pure w.toInt32

def i64 : Decoder Int64 := do
  let w ← u64
  pure w.toInt64

/-! ## Lists -/

/-- Read `n` items behind the reversed list `before`. -/
def timesOnto (p : Decoder α) : Nat → List α → Ending → Cursor → Outcome (List α)
  | 0, before, _, c => .done before.reverse c
  | n + 1, before, e, c =>
      match p e c with
      | .done x c => timesOnto p n (x :: before) e c
      | .failed error c => .failed error c

/-- Read `n` items, one after the other. -/
def times (n : Nat) (p : Decoder α) : Decoder (List α) :=
  timesOnto p n []

/-- A list in the format: its length in two bytes, then its items. -/
def counted (p : Decoder α) : Decoder (List α) := do
  let n ← u16
  times n.toNat p

theorem timesOnto_eq (p : Decoder α) (n : Nat) (before : List α) (e : Ending) (c : Cursor) :
    timesOnto p n before e c = match times n p e c with
      | .done xs c => .done (before.reverse ++ xs) c
      | .failed error c => .failed error c := by
  unfold times
  induction n generalizing before c with
  | zero => simp [timesOnto]
  | succ n ih =>
      simp only [timesOnto]
      cases p e c with
      | failed error c => rfl
      | done x c =>
          simp only [ih (x :: before) c, ih [x] c]
          cases timesOnto p n [] e c <;> simp

@[simp] theorem times_zero (p : Decoder α) : times 0 p = pure [] := rfl

/-- Reading `n + 1` items is reading one and then `n`. -/
theorem times_succ (p : Decoder α) (n : Nat) :
    times (n + 1) p = (do let x ← p; let xs ← times n p; pure (x :: xs)) := by
  funext e c
  simp only [bind_apply]
  unfold times
  simp only [timesOnto]
  cases p e c with
  | failed error c => rfl
  | done x c =>
      simp only [timesOnto_eq p n [x], times]
      cases timesOnto p n [] e c <;> simp [pure_apply]

/-! ## Bounding a recursion -/

/-- Run a decoder that is told the number of unread bytes. A decoder that
consumes at least one byte before it calls itself nests at most that deep. -/
@[inline] def withUnread (f : Nat → Decoder α) : Decoder α := fun e c =>
  f c.unread.length e c

end Decoder

end ClassOutline
