import ClassOutline.Command.Run

/-!
The command line. All decisions are in `ClassOutline.Command.run`; here the file is
read, and the transcript is written out.
-/

set_option autoImplicit false

namespace ClassOutline

/-- The number of a system error, which may be given as a negative word. -/
def errorNumber? : IO.Error → Option Nat
  | .noFileOrDirectory _ code _ | .permissionDenied _ code _ | .inappropriateType _ code _
  | .invalidArgument _ code _ =>
      some (if code.toNat < 0x80000000 then code.toNat else 0x100000000 - code.toNat)
  | _ => none

/-- The failure that a system error stands for. -/
def failureOfSystem (error : IO.Error) : Failure :=
  match (errorNumber? error).bind Failure.ofNumber? with
  | some cause => cause
  | none => .raised .other (toString error)

/-- Read a file to its end. -/
def readSource (path : String) : IO (Except Failure Source) := do
  try
    let bytes ← IO.FS.readBinFile path
    pure (.ok { bytes := bytes.toList })
  catch error => pure (.error (failureOfSystem error))

/-- The level of a name in the environment. -/
def levelOfName : Option String → Option Level
  | some "error" => some .error
  | some "info" => some .info
  | some "debug" => some .debug
  | some "trace" => some .trace
  | _ => none

end ClassOutline

open ClassOutline in
def main (args : List String) : IO UInt32 := do
  let limit := levelOfName (← IO.getEnv "CLASS_OUTLINE_LOG")
  let source ← match Request.ofArguments? args with
    | some (.run invocation) => readSource invocation.file
    | _ => pure (.ok { bytes := [] })
  let transcript := Command.run limit (fun _ => source) args
  IO.print transcript.output
  IO.eprint transcript.errors
  pure (UInt32.ofNat transcript.exitCode)
