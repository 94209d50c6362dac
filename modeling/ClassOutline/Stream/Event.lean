import ClassOutline.Basic

/-!
What a decoder did, as data.

While it reads, a decoder keeps a journal: the lookups it made in the constant
pool, the payloads it found where there should be none, and the steps it reports on.
A report has a level (`Event.level?`); the other entries never show in a log.
-/

set_option autoImplicit false

namespace ClassOutline

/-- The three questions a decoder asks of a constant pool. -/
inductive Lookup where
  /-- the text of a Utf8 constant -/
  | utf8
  /-- the dotted name of a Class constant -/
  | className
  /-- the source text of a literal constant -/
  | literal
  deriving DecidableEq, Repr

/-- What an attribute stands on. -/
inductive Holder where
  | wholeClass
  | field (name : String)
  | method (name : String)
  deriving DecidableEq, Repr

def Holder.text : Holder → String
  | .wholeClass => "class"
  | .field name => s!"field {name}"
  | .method name => s!"method {name}"

/-- Log levels, from the one that is always shown to the most detailed. -/
inductive Level where
  | error
  | info
  | debug
  | trace
  deriving DecidableEq, Repr

namespace Level

def label : Level → String
  | error => "ERROR"
  | info => "INFO"
  | debug => "DEBUG"
  | trace => "TRACE"

def detail : Level → Nat
  | error => 0
  | info => 1
  | debug => 2
  | trace => 3

/-- Is a report of level `l` shown when reports up to `limit` are asked for? -/
def shownAt (limit l : Level) : Bool :=
  l.detail ≤ limit.detail

end Level

/-- One entry of the journal. -/
inductive Event where
  /-- the constant pool was asked a question -/
  | lookup (question : Lookup) (index : UInt16)
  /-- a constant pool was read to its end -/
  | poolRead (slots : Nat)
  /-- the header of a class is known -/
  | classHeader (name : String) (version : Version)
  /-- the frame of an attribute was read -/
  | attributeFrame (name : String) (length : UInt32)
  /-- an attribute of unknown name is about to be skipped -/
  | attributeSkipped (name : String) (length : UInt32)
  /-- a marker attribute had a payload, and it was skipped -/
  | markerPayload (name : String) (length : UInt32)
  /-- a decoded attribute has no meaning where it stands -/
  | attributeIgnored (name : String) (holder : Holder)
  /-- the command opens its input -/
  | inputNamed (path : String)
  /-- the command has read its input -/
  | classRead (name : String) (fields methods : Nat)
  deriving DecidableEq, Repr

namespace Event

/-- The level at which an event is reported; lookups and the payloads of markers are
not. -/
def level? : Event → Option Level
  | lookup _ _ | markerPayload _ _ => none
  | poolRead _ => some .trace
  | classHeader _ _ => some .debug
  | attributeFrame _ _ => some .trace
  | attributeSkipped _ _ => some .debug
  | attributeIgnored _ _ => some .trace
  | inputNamed _ => some .info
  | classRead _ _ _ => some .info

/-- The wording of an event. -/
def message : Event → String
  | lookup _ index => s!"Looking up constant #{index.toNat}"
  | poolRead slots => s!"Read {slots} constant pool slots"
  | classHeader name version => s!"Reading class {name} (version {version.text})"
  | attributeFrame name length => s!"Reading `{name}` attribute ({length.toNat} bytes)"
  | attributeSkipped name length =>
      s!"Skipping unknown `{name}` attribute ({length.toNat} bytes)"
  | markerPayload name length =>
      s!"Skipping the payload of marker `{name}` ({length.toNat} bytes)"
  | attributeIgnored name holder => s!"Ignoring `{name}` attribute on {holder.text}"
  | inputNamed path => s!"Reading '{path}'"
  | classRead name fields methods => s!"Read {name} ({fields} fields, {methods} methods)"

/-- The question and the index, if the event is a lookup. -/
def lookup? : Event → Option (Lookup × UInt16)
  | lookup question index => some (question, index)
  | _ => none

end Event

end ClassOutline
