import ClassOutline.Command.Arguments
import ClassOutline.Outline

/-!
A run of the command, as a function of its arguments and of the files it can see.

The outcome is an exit code and what is written to the two output streams: the
outline of the class, and the reports and the error of the run.
-/

set_option autoImplicit false

namespace ClassOutline

/-- A file that was opened: its bytes, and what happens behind them. -/
structure Source where
  bytes : List UInt8
  ending : Ending := .endOfFile

/-- What a run leaves behind. -/
structure Transcript where
  exitCode : Nat
  output : String
  errors : String
  deriving DecidableEq, Repr

namespace Command

def versionText : String := "Class file inspector 0.1.0\n"

def helpText : String :=
  "Decode a JVM class file and print its members as Java-like source\n\n"
    ++ "Usage: class-outline [OPTIONS] <INPUT>\n\n"
    ++ "Arguments:\n  <INPUT>  Sets the input class file to use\n\n"
    ++ "Options:\n"
    ++ "      --strict      Reject `Deprecated`/`Synthetic` attributes with a non-zero length\n"
    ++ "      --indent <N>  Number of spaces per level of indentation (default: 5)\n"
    ++ "  -h, --help        Print help\n"
    ++ "  -V, --version     Print version\n"

def usageText : String := "error: invalid arguments\n\nFor more information, try '--help'.\n"

/-! ## Reports -/

/-- A report on its own line; further lines of a message are set in. -/
def reportLine (level : Level) (message : String) : String :=
  let indented := message.toList.flatMap fun c => if c = '\n' then "\n    ".toList else [c]
  level.label ++ " " ++ String.ofList indented ++ "\n"

/-- The reports up to a level; none if there is no level. -/
def reports (limit : Option Level) (events : List Event) : String :=
  String.join (events.map fun event =>
    match limit, event.level? with
    | some limit, some level =>
        if limit.shownAt level then reportLine level event.message else ""
    | _, _ => "")

/-! ## Runs -/

/-- Read and outline one file. -/
def runFile (limit : Option Level) (openFile : String → Except Failure Source)
    (invocation : Invocation) : Transcript :=
  let settings : Settings := { strict := invocation.strict }
  let settings := match invocation.indent with
    | some width => settings.withIndentWidth width
    | none => settings
  let named := Event.inputNamed invocation.file
  let failed (events : List Event) (error : Error) : Transcript :=
    { exitCode := 1
      output := ""
      errors := reports limit (named :: events) ++ "Error: " ++ error.report ++ "\n" }
  match openFile invocation.file with
  | .error cause => failed [] (.failure cause)
  | .ok source =>
      match Class.decode settings source.ending (.start source.bytes) with
      | .failed error stop => failed stop.events error
      | .done c next =>
          let read := Event.classRead c.name c.fields.length c.methods.length
          { exitCode := 0
            output := Outline.text settings c
            errors := reports limit (named :: next.events ++ [read]) }

/-- Run the command. -/
def run (limit : Option Level) (openFile : String → Except Failure Source)
    (args : List String) : Transcript :=
  match Request.ofArguments? args with
  | none => { exitCode := 2, output := "", errors := usageText }
  | some .version => { exitCode := 0, output := versionText, errors := "" }
  | some .help => { exitCode := 0, output := helpText, errors := "" }
  | some (.run invocation) => runFile limit openFile invocation

end Command

end ClassOutline
