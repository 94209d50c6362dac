import ClassOutline.Text.Basic

/-!
Why decoding a class file fails, and how each cause is worded.

An error is a cause, not a text: `Error.message` is the only place that holds
wording for a reader, and `Error.report` the only place for the form the command
prints. A failure of the underlying stream becomes an error through
`Error.ofFailure`, which turns an early end into the ordinary truncation error;
every other failure is kept as it was reported.
-/

set_option autoImplicit false

namespace ClassOutline

/-! ## Failures of the stream below -/

/-- The kinds of failure a stream or the file system reports. -/
inductive FailureKind where
  | notFound
  | permissionDenied
  | unexpectedEof
  | invalidData
  | invalidInput
  | timedOut
  | brokenPipe
  | isADirectory
  | notADirectory
  | invalidFilename
  | other
  deriving DecidableEq, Repr

/-- The name of a kind of failure in a report. -/
def FailureKind.label : FailureKind → String
  | .notFound => "NotFound"
  | .permissionDenied => "PermissionDenied"
  | .unexpectedEof => "UnexpectedEof"
  | .invalidData => "InvalidData"
  | .invalidInput => "InvalidInput"
  | .timedOut => "TimedOut"
  | .brokenPipe => "BrokenPipe"
  | .isADirectory => "IsADirectory"
  | .notADirectory => "NotADirectory"
  | .invalidFilename => "InvalidFilename"
  | .other => "Other"

/-- A failure below the decoder: raised by the stream itself, or by the system
with its error number. -/
inductive Failure where
  | raised (kind : FailureKind) (message : String)
  | system (code : Nat) (kind : FailureKind) (message : String)
  deriving DecidableEq, Repr

namespace Failure

def kind : Failure → FailureKind
  | raised kind _ => kind
  | system _ kind _ => kind

/-- The wording of a failure; the system's carries its number. -/
def message : Failure → String
  | raised _ message => message
  | system code _ message => s!"{message} (os error {code})"

/-! The failures of the system when a file is opened and read. -/

def noSuchFile : Failure := system 2 .notFound "No such file or directory"
def noPermission : Failure := system 13 .permissionDenied "Permission denied"
def notADirectory : Failure := system 20 .notADirectory "Not a directory"
def isADirectory : Failure := system 21 .isADirectory "Is a directory"
def nameTooLong : Failure := system 36 .invalidFilename "File name too long"

/-- The failure of an error number. -/
def ofNumber? : Nat → Option Failure
  | 2 => some noSuchFile
  | 13 => some noPermission
  | 20 => some notADirectory
  | 21 => some isADirectory
  | 36 => some nameTooLong
  | _ => none

/-- The form a failure takes inside a report. -/
def report : Failure → String
  | raised kind message => s!"Custom \x7b kind: {kind.label}, error: \"{message}\" \x7d"
  | system code kind message => s!"Os \x7b code: {code}, kind: {kind.label}, message: \"{message}\" \x7d"

end Failure

/-! ## Errors of the decoder -/

/-- What a lookup in the constant pool was after. -/
inductive Expected where
  | utf8
  | classRef
  | literal
  deriving DecidableEq, Repr

def Expected.label : Expected → String
  | .utf8 => "utf8"
  | .classRef => "class"
  | .literal => "literal"

/-- Why a class file, or a part of one, cannot be decoded. -/
inductive Error where
  /-- the bytes end inside a field -/
  | truncated
  /-- the index has no entry of the expected sort -/
  | unresolved (index : UInt16) (expected : Expected)
  /-- the frame of an attribute contradicts its definition -/
  | malformedAttribute (name reason : String)
  /-- the first four bytes are not those of a class file -/
  | badMagic (magic : UInt32)
  /-- a constant of unknown shape -/
  | unknownTag (tag : UInt8)
  /-- the stream failed -/
  | failure (cause : Failure)
  deriving DecidableEq, Repr

namespace Error

/-- A stream that reports its own early end is truncated; any other failure of
the stream is kept. -/
def ofFailure (cause : Failure) : Error :=
  if cause.kind = .unexpectedEof then truncated else failure cause

theorem ofFailure_eq_truncated_iff (cause : Failure) :
    ofFailure cause = truncated ↔ cause.kind = .unexpectedEof := by
  unfold ofFailure
  split <;> simp_all

/-- The wording of an error. -/
def message : Error → String
  | truncated => "unexpected end of class file data"
  | unresolved index expected =>
      s!"constant #{index.toNat} is not a valid {expected.label} constant"
  | malformedAttribute name reason => s!"malformed `{name}` attribute: {reason}"
  | badMagic magic => "bad class file magic 0x" ++ hexText 8 magic.toNat
  | unknownTag tag => s!"unknown constant pool tag {tag.toNat}"
  | failure cause => s!"I/O error: {cause.message}"

/-- The failure an error goes back to, if the stream was at fault. -/
def source? : Error → Option Failure
  | failure cause => some cause
  | _ => none

/-- The form in which the command prints an error. -/
def report : Error → String
  | truncated => "TruncatedStream"
  | unresolved index expected =>
      s!"UnresolvedConstant \x7b index: ConstantIndex({index.toNat}), expected: \"{expected.label}\" \x7d"
  | malformedAttribute name reason =>
      s!"MalformedAttribute \x7b name: \"{name}\", reason: \"{reason}\" \x7d"
  | badMagic magic => s!"BadMagic({magic.toNat})"
  | unknownTag tag => s!"UnknownConstantTag({tag.toNat})"
  | failure cause => s!"IoError({cause.report})"

end Error

end ClassOutline
