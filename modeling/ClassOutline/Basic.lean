/-!
What all parts of the library share: the version of a class file, and the settings
of a run.

Versions are ordered by their major number and then by their minor one, the
order that `Version.compare` decides.
-/

set_option autoImplicit false

namespace ClassOutline

/-! ## Versions -/

structure Version where
  major : UInt16
  minor : UInt16
  deriving DecidableEq, Repr

namespace Version

/-- The version that Java SE 8 writes. -/
def java8 : Version := ⟨52, 0⟩

/-- A version as text, such as `52.0`. -/
def text (v : Version) : String :=
  s!"{v.major.toNat}.{v.minor.toNat}"

/-- The order of versions: by major number, then by minor number. -/
def compare (a b : Version) : Ordering :=
  (Ord.compare a.major b.major).then (Ord.compare a.minor b.minor)

end Version

/-! ## Settings -/

/-- The settings that decoding and printing share. -/
structure Settings where
  /-- refuse marker attributes that declare a payload -/
  strict : Bool := false
  /-- the text put in front of a line for every level of nesting -/
  indentUnit : String := "     "
  deriving DecidableEq, Repr

/-- Indent by `width` spaces for every level. -/
def Settings.withIndentWidth (settings : Settings) (width : Nat) : Settings :=
  { settings with indentUnit := String.ofList (List.replicate width ' ') }

end ClassOutline
