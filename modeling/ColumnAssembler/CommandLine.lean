import ColumnAssembler.Assembly
import ColumnAssembler.Text.Quoted

/-!
# Command line

Options come before the file to assemble. An option starts with one or two hyphens; its value
follows an equals sign or, for options that need one, is the next argument. Two hyphens alone end
the options. Switches are on when they are named without a value.
-/

namespace ColumnAssembler

/-- The options of a run. -/
structure Options where
  /-- The file to assemble. -/
  input : Text
  /-- The object file. -/
  output : Text
  /-- The listing file. -/
  listing : Text
  /-- A pattern for the files to assemble. -/
  batch : Text
  /-- The start address in hexadecimal digits. -/
  origin : Text
  /-- Do not wait for acknowledgement of errors. -/
  noPrompt : Bool
  /-- Read the object file back. -/
  verify : Bool
  /-- Log everything. -/
  debug : Bool
  /-- Log errors only. -/
  quiet : Bool
  deriving DecidableEq, Repr

/-- The options of a command line without any. -/
def Options.defaults : Options :=
  ⟨[], [], [], [], Text.ascii "8000", false, false, false, false⟩

/-- The options with a value. -/
inductive ValueFlag where
  /-- The object file. -/
  | output
  /-- The listing file. -/
  | listing
  /-- The pattern for the files to assemble. -/
  | batch
  /-- The start address. -/
  | origin
  deriving DecidableEq, Repr

/-- Set an option with a value. -/
def ValueFlag.set (value : Text) (o : Options) : ValueFlag → Options
  | output => { o with output := value }
  | listing => { o with listing := value }
  | batch => { o with batch := value }
  | origin => { o with origin := value }

/-- The options that are on or off. -/
inductive SwitchFlag where
  /-- Do not wait for acknowledgement of errors. -/
  | noPrompt
  /-- Log everything. -/
  | debug
  /-- Log errors only. -/
  | quiet
  /-- Read the object file back. -/
  | verify
  deriving DecidableEq, Repr

/-- Set a switch. -/
def SwitchFlag.set (value : Bool) (o : Options) : SwitchFlag → Options
  | noPrompt => { o with noPrompt := value }
  | debug => { o with debug := value }
  | quiet => { o with quiet := value }
  | verify => { o with verify := value }

/-- The options of a command line. -/
inductive Flag where
  /-- An option with a value. -/
  | value (f : ValueFlag)
  /-- An option that is on or off. -/
  | switch (f : SwitchFlag)
  deriving DecidableEq, Repr

/-- The option with the given name. -/
def Flag.ofName? (name : Text) : Option Flag :=
  [(Text.ascii "o", .value .output), (Text.ascii "l", .value .listing),
    (Text.ascii "batch", .value .batch), (Text.ascii "origin", .value .origin),
    (Text.ascii "y", .switch .noPrompt), (Text.ascii "debug", .switch .debug),
    (Text.ascii "q", .switch .quiet), (Text.ascii "verify", Flag.switch .verify)].lookup name

/-- Why the options cannot be read. -/
inductive FlagError where
  /-- The user asks for help. -/
  | help
  /-- An argument has hyphens and no name. -/
  | badSyntax (argument : Text)
  /-- There is no such option. -/
  | undefined (name : Text)
  /-- The value of an option is missing. -/
  | needsArgument (name : Text)
  /-- The value of a switch is neither true nor false. -/
  | invalidBoolean (value name : Text)
  deriving DecidableEq, Repr

/-- The wording of a flag error; asking for help is none. -/
def FlagError.message? : FlagError → Option Text
  | help => none
  | badSyntax argument => some (Text.ascii "bad flag syntax: " ++ argument)
  | undefined name => some (Text.ascii "flag provided but not defined: -" ++ name)
  | needsArgument name => some (Text.ascii "flag needs an argument: -" ++ name)
  | invalidBoolean value name =>
    some (Text.ascii "invalid boolean value " ++ value.quoted ++ Text.ascii " for -" ++ name
      ++ Text.ascii ": parse error")

/-- What an argument is. -/
inductive Argument where
  /-- Not an option. -/
  | positional
  /-- The end of the options. -/
  | terminator
  /-- Hyphens without a name. -/
  | malformed
  /-- An option, with the value after its equals sign. -/
  | flag (name : Text) (value : Option Text)
  deriving DecidableEq, Repr

namespace Argument

/-- An option, given the argument without its hyphens. -/
def named : Text → Argument
  | [] => malformed
  | b :: rest =>
    if b = Byte.minus ∨ b = Byte.equals then malformed
    else flag (Text.before Byte.equals (b :: rest)) (Text.after? Byte.equals (b :: rest))

/-- What an argument is. A hyphen alone is not an option. -/
def ofText : Text → Argument
  | a :: b :: rest =>
    if a ≠ Byte.minus then positional
    else if b ≠ Byte.minus then named (b :: rest)
    else if rest.isEmpty then terminator
    else named rest
  | _ => positional

end Argument

/-- Why a command line is refused. -/
inductive CommandError where
  /-- The options cannot be read. -/
  | flag (cause : FlagError)
  /-- There is no file to assemble. -/
  | missingFile
  /-- An option stands after the file to assemble. -/
  | misplaced (argument : Text)
  /-- An empty argument stands after the file to assemble. -/
  | emptyArgument
  /-- The start address is no 16-bit number. -/
  | badOrigin (given digits : Text) (cause : Numeral.ReadError)
  deriving DecidableEq, Repr

/-- The wording of a command error. -/
def CommandError.message : CommandError → Text
  | flag cause => cause.message?.getD (Text.ascii "flag: help requested")
  | missingFile => Text.ascii "missing file to assemble"
  | misplaced argument =>
    Text.ascii "Potential argument " ++ argument ++ Text.ascii " found after file to assemble, "
      ++ Text.ascii "please pass the file to assemble as last argument"
  | emptyArgument => Text.ascii "runtime error: index out of range [0] with length 0"
  | badOrigin given digits cause =>
    Text.ascii "invalid origin " ++ given.cited ++ Text.ascii ": " ++ cause.message digits

namespace CommandLine

/-- The usage line. -/
def usageLine : Text := Text.ascii "usage: fixasm [options] <file to assemble>"

/-- The options with their meanings. -/
def flagDefaults : Text :=
  (["  -batch string",
    "    \tprocess a batch of given path and file mask and automatically .o file naming, for example *.asm",
    "  -debug",
    "    \tenable debugging options for extended logging",
    "  -l string",
    "    \tname of the listing file, printed on console if no name given",
    "  -o string",
    "    \tname of the output object file, defaults to the source name with .o extension",
    "  -origin string",
    "    \tstart address in hex used if the source contains no ORG (default \"8000\")",
    "  -q\tperform operations quietly",
    "  -verify",
    "    \tverify the written object file by reading it back and comparing it to the assembled program",
    "  -y\tdo not wait for acknowledgement of assembly errors"].map
      fun line => Text.ascii line ++ [Byte.lineFeed]).flatten

/-- The value of a switch after an equals sign. -/
def boolean? (value : Text) : Option Bool :=
  if ["1", "t", "T", "TRUE", "true", "True"].any (Text.ascii · == value) then some true
  else if ["0", "f", "F", "FALSE", "false", "False"].any (Text.ascii · == value) then some false
  else none

/-- Read options up to the first argument that is none; the arguments from there on remain. -/
def readFlags (o : Options) : List Text → Except FlagError (Options × List Text)
  | [] => .ok (o, [])
  | argument :: rest =>
    match Argument.ofText argument with
    | .positional => .ok (o, argument :: rest)
    | .terminator => .ok (o, rest)
    | .malformed => .error (.badSyntax argument)
    | .flag name given =>
      match Flag.ofName? name, given with
      | none, _ =>
        if name = Text.ascii "help" ∨ name = Text.ascii "h" then .error .help
        else .error (.undefined name)
      | some (.switch f), none => readFlags (f.set true o) rest
      | some (.switch f), some value =>
        match boolean? value with
        | some b => readFlags (f.set b o) rest
        | none => .error (.invalidBoolean value name)
      | some (.value f), some value => readFlags (f.set value o) rest
      | some (.value f), none =>
        match rest with
        | value :: more => readFlags (f.set value o) more
        | [] => .error (.needsArgument name)

/-- The error of the arguments after the file to assemble. -/
def misplaced? : List Text → Option CommandError
  | [] => none
  | [] :: _ => some .emptyArgument
  | (b :: t) :: rest => if b = Byte.minus then some (.misplaced (b :: t)) else misplaced? rest

/-- The start address that an option means: hexadecimal digits, after a dollar sign and after a
zero and an x. -/
def readOrigin (given : Text) : Except CommandError UInt16 :=
  let digits := Text.withoutStart (Text.ascii "0x") (Text.withoutStart [Byte.dollar] given)
  match Numeral.read 16 0xFFFF digits with
  | .ok n => .ok (UInt16.ofNat n)
  | .error cause => .error (.badOrigin given digits cause)

/-- Read the arguments that are no options. -/
def readArguments (o : Options) (arguments : List Text) : Options × Except CommandError UInt16 :=
  if arguments.isEmpty && o.batch.isEmpty then (o, .error .missingFile)
  else
    match misplaced? arguments.tail with
    | some e => (o, .error e)
    | none =>
      match readOrigin o.origin with
      | .error e => (o, .error e)
      | .ok origin =>
        (if o.batch.isEmpty then { o with input := arguments.headD [] } else o, .ok origin)

/-- Read a command line: the options, and the start address unless the command line is refused. -/
def parse (arguments : List Text) : Options × Except CommandError UInt16 :=
  match readFlags .defaults arguments with
  | .error cause => (.defaults, .error (.flag cause))
  | .ok (o, rest) => readArguments o rest

/-- Whether arguments were given in a wrong way, and not only left out. -/
def isMisuse : CommandError → Bool
  | .misplaced _ => true
  | _ => false

/-- What a refused command line shows on the standard output as usage. -/
def usageOutput (e : CommandError) : Text :=
  usageLine ++ [Byte.lineFeed] ++ if isMisuse e then [Byte.lineFeed, Byte.lineFeed] else []

/-- What a refused command line shows on the error output as usage. -/
def usageErrors (e : CommandError) : Text := if isMisuse e then flagDefaults else []

end CommandLine

end ColumnAssembler
