import ClassOutline.Stream.Decoder

/-!
Access flags of classes, methods and fields.

Each of the three has its own set of flags, and `Access k` holds only flags of the
set of `k`; `Access.ofBits` drops all other bits. Some flags have a keyword in source
code; `Access.modifiers` gives those that are set, in the order in which source code
has them.
-/

set_option autoImplicit false

namespace ClassOutline

/-- What access flags stand on. -/
inductive AccessKind where
  | ofClass
  | ofMethod
  | ofField
  deriving DecidableEq, Repr

/-! ## Flags -/

namespace Flag

def isPublic : UInt16 := 0x0001
def isPrivate : UInt16 := 0x0002
def isProtected : UInt16 := 0x0004
def isStatic : UInt16 := 0x0008
def isFinal : UInt16 := 0x0010
/-- On methods. -/
def isSynchronized : UInt16 := 0x0020
/-- On fields. -/
def isVolatile : UInt16 := 0x0040
/-- On fields. -/
def isTransient : UInt16 := 0x0080
def isNative : UInt16 := 0x0100
def isInterface : UInt16 := 0x0200
def isAbstract : UInt16 := 0x0400
def isStrict : UInt16 := 0x0800
def isAnnotation : UInt16 := 0x2000
def isEnum : UInt16 := 0x4000

end Flag

namespace AccessKind

/-- All the flags of a kind. -/
def mask : AccessKind → UInt16
  | ofClass => 0xF631
  | ofMethod => 0x1DFF
  | ofField => 0x50DF

/-- The flags with a keyword, in the order of source code. -/
def keywords : AccessKind → List (UInt16 × String)
  | ofClass =>
      [(Flag.isPublic, "public"), (Flag.isAbstract, "abstract"), (Flag.isFinal, "final")]
  | ofMethod =>
      [(Flag.isPublic, "public"), (Flag.isProtected, "protected"), (Flag.isPrivate, "private"),
       (Flag.isAbstract, "abstract"), (Flag.isStatic, "static"), (Flag.isFinal, "final"),
       (Flag.isSynchronized, "synchronized"), (Flag.isNative, "native"),
       (Flag.isStrict, "strictfp")]
  | ofField =>
      [(Flag.isPublic, "public"), (Flag.isProtected, "protected"), (Flag.isPrivate, "private"),
       (Flag.isStatic, "static"), (Flag.isFinal, "final"), (Flag.isTransient, "transient"),
       (Flag.isVolatile, "volatile")]

end AccessKind

/-! ## Sets of flags -/

/-- The access flags of something of kind `k`. -/
structure Access (k : AccessKind) where
  bits : UInt16
  known : bits &&& k.mask = bits
  deriving DecidableEq, Repr

namespace Access

variable {k : AccessKind}

/-- The known flags among the given bits. -/
def ofBits (k : AccessKind) (bits : UInt16) : Access k :=
  ⟨bits &&& k.mask, by rw [UInt16.and_assoc, UInt16.and_self]⟩

theorem ofBits_bits (a : Access k) : ofBits k a.bits = a := by
  cases a with
  | mk bits known => simp [ofBits, known]

def has (a : Access k) (flag : UInt16) : Bool := a.bits &&& flag != 0

/-- The keywords of the flags that are set. An interface is abstract without
saying so. -/
def modifiers (a : Access k) : List String :=
  let implied := k == .ofClass && a.has Flag.isInterface
  (k.keywords.filter fun (flag, _) => a.has flag && !(implied && flag == Flag.isAbstract)).map
    Prod.snd

/-- The modifiers in front of a declaration, each followed by a space. -/
def leadingText (a : Access k) : String :=
  String.join (a.modifiers.map (· ++ " "))

def encode (a : Access k) : List UInt8 := bytes16 a.bits

/-- Read access flags; unknown bits are dropped. -/
def decode (k : AccessKind) : Decoder (Access k) := do
  let bits ← Decoder.u16
  pure (ofBits k bits)

end Access

end ClassOutline
