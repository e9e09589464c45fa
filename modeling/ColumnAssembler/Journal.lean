import ColumnAssembler.Diagnostic
import ColumnAssembler.Text.Quoted

/-!
# Journal

What a run tells the outside, as data: log entries with named fields, diagnostics and pieces of
the listing, in the order they come up. A log line shows the level, the message and the fields as
a JSON object.
-/

namespace ColumnAssembler

/-- The importance of a log entry. -/
inductive LogLevel where
  /-- Details for finding errors in the program. -/
  | debug
  /-- Progress. -/
  | info
  /-- Something the user should look at. -/
  | warn
  /-- Something failed. -/
  | error
  /-- The program gives up. -/
  | fatal
  deriving DecidableEq, Repr

namespace LogLevel

/-- The name of a level. -/
def name : LogLevel → Text
  | debug => Text.ascii "DEBUG"
  | info => Text.ascii "INFO"
  | warn => Text.ascii "WARN"
  | error => Text.ascii "ERROR"
  | fatal => Text.ascii "FATAL"

/-- Levels by importance. -/
def rank : LogLevel → Nat
  | debug => 0
  | info => 1
  | warn => 2
  | error => 3
  | fatal => 4

end LogLevel

/-- The value of a log field. -/
inductive LogValue where
  /-- A text. -/
  | text (t : Text)
  /-- A number. -/
  | number (z : Int)
  /-- An address. -/
  | address (w : UInt16)
  deriving DecidableEq, Repr

namespace LogValue

/-- The value as plain text; an address has four hexadecimal digits. -/
def plain : LogValue → Text
  | text t => t
  | number z => Numeral.decimalInt z
  | address w => Text.ascii "0x" ++ Numeral.hexWord w

/-- The value in a JSON object. -/
def json : LogValue → Text
  | number z => Numeral.decimalInt z
  | value => Text.json value.plain

end LogValue

/-- A log entry. -/
structure LogEntry where
  /-- How important it is. -/
  level : LogLevel
  /-- What happened. -/
  message : Text
  /-- Names and values of its details, in order. -/
  fields : List (Text × LogValue)
  deriving DecidableEq, Repr

namespace LogEntry

/-- The fields as a JSON object. -/
def fieldsJson (fields : List (Text × LogValue)) : Text :=
  [0x7B] ++ List.intercalate [Byte.comma]
    (fields.map fun field => Text.json field.1 ++ [Byte.colon] ++ field.2.json) ++ [0x7D]

/-- The line that shows the entry. -/
def line (e : LogEntry) : Text :=
  e.level.name.padRight 8 ++ e.message
    ++ (if e.fields.isEmpty then [] else Byte.space :: fieldsJson e.fields) ++ [Byte.lineFeed]

/-- The warning that shows a diagnostic. -/
def ofDiagnostic (d : Diagnostic) : LogEntry :=
  ⟨.warn, d.kind.name, [(Text.ascii "line", .number d.line)]⟩

end LogEntry

/-- Something a run tells the outside. -/
inductive Event where
  /-- A log entry. -/
  | log (e : LogEntry)
  /-- A diagnostic, told as soon as it is found. -/
  | diagnostic (d : Diagnostic)
  /-- A piece of the listing on the console. -/
  | listing (t : Text)
  deriving DecidableEq, Repr

namespace Event

/-- The log entry of an event. -/
def log? : Event → Option LogEntry
  | log e => some e
  | _ => none

/-- The diagnostic of an event. -/
def diagnostic? : Event → Option Diagnostic
  | diagnostic d => some d
  | _ => none

/-- The listing text of an event. -/
def listingText : Event → Text
  | listing t => t
  | _ => []

end Event

end ColumnAssembler
