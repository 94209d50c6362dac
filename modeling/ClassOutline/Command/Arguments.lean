/-!
The arguments of the command.

There is one file, an option `--strict` without a value and an option `--indent`
with a number; each is given at most once, and in any order. Options end at `--`.
Arguments are taken from left to right, and a request for the version or for help is
granted as soon as it is reached, whatever follows.
-/

set_option autoImplicit false

namespace ClassOutline

/-- What a run of the command is to do. -/
structure Invocation where
  strict : Bool
  indent : Option Nat
  file : String
  deriving DecidableEq, Repr

/-- What the arguments ask for. -/
inductive Request where
  | run (invocation : Invocation)
  | version
  | help
  deriving DecidableEq, Repr

namespace Arguments

/-- What has been given so far. -/
structure Given where
  strict : Bool := false
  indent : Option Nat := none
  file : Option String := none

/-! ## Numbers -/

/-- The value of decimal digits behind the value `n`, below two to the 64. -/
def digitsValue? : List Char → Nat → Option Nat
  | [], n => some n
  | c :: rest, n =>
      if c.isDigit then
        let n := 10 * n + (c.toNat - 48)
        if n < 2 ^ 64 then digitsValue? rest n else none
      else none

/-- A number: digits, with at most one plus sign in front. -/
def number? (text : String) : Option Nat :=
  let digits := match text.toList with
    | '+' :: rest => rest
    | cs => cs
  if digits.isEmpty then none else digitsValue? digits 0

/-! ## Options -/

/-- Is an argument an option, or the end of the options? A single dash is a file. -/
def isOption (arg : String) : Bool :=
  match arg.toList with
  | '-' :: _ :: _ => true
  | _ => false

def giveStrict (given : Given) : Option Given :=
  if given.strict then none else some { given with strict := true }

def giveIndent (given : Given) (value : String) : Option Given :=
  match given.indent, number? value with
  | none, some width => some { given with indent := some width }
  | _, _ => none

def giveFile (given : Given) (file : String) : Option Given :=
  match given.file with
  | none => if file.isEmpty then none else some { given with file := some file }
  | some _ => none

/-- All arguments are there. -/
def finish (given : Given) : Option Request :=
  given.file.map fun file => .run { strict := given.strict, indent := given.indent, file }

/-- The rest are files. -/
def readFiles (given : Given) : List String → Option Request
  | [] => finish given
  | arg :: rest => (giveFile given arg).bind (readFiles · rest)

/-- Take arguments from left to right; `none` if they are not as described. -/
def readFrom (given : Given) : List String → Option Request
  | [] => finish given
  | arg :: rest =>
      match arg.toList with
      | ['-', '-'] => readFiles given rest
      | '-' :: '-' :: option =>
          let name := String.ofList (option.takeWhile (· != '='))
          match name, option.dropWhile (· != '=') with
          | "strict", [] => (giveStrict given).bind (readFrom · rest)
          | "indent", _ :: value =>
              (giveIndent given (String.ofList value)).bind (readFrom · rest)
          | "indent", [] =>
              match rest with
              | value :: rest =>
                  if isOption value then none else (giveIndent given value).bind (readFrom · rest)
              | [] => none
          | "version", [] => some .version
          | "help", [] => some .help
          | _, _ => none
      | '-' :: flag :: _ =>
          if flag = 'V' then some .version
          else if flag = 'h' then some .help
          else none
      | _ => (giveFile given arg).bind (readFrom · rest)

end Arguments

/-- What the arguments ask for; `none` if they are not as they should be. -/
def Request.ofArguments? (args : List String) : Option Request :=
  Arguments.readFrom {} args

end ClassOutline
