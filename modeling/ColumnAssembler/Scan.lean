import ColumnAssembler.Fault
import ColumnAssembler.Journal
import ColumnAssembler.Program

/-!
# Reading the lines

The state of the first pass. Every line becomes a record at the current address, labels and
constants are defined, and the address counter moves on by the bytes of the record. The pass stops
at the first fault. A fault of a directive leaves its record; a fault of an instruction or of a
line that cannot be read leaves nothing; running out of room is found after the line took effect.
-/

namespace ColumnAssembler

/-- The state between two lines. -/
structure Scan where
  /-- The program so far. -/
  program : Program
  /-- The address of the next byte. -/
  address : Nat
  /-- Some record has taken a byte. -/
  emitted : Bool
  /-- The position of the first memory record after the last checksum. -/
  checksumStart : Nat
  /-- What the run has told so far. -/
  events : Array Event
  deriving DecidableEq, Repr

namespace Scan

/-- The state before the first line. -/
def start (origin : UInt16) : Scan := ⟨.empty origin, origin.toNat, false, 0, #[]⟩

/-- Tell a log entry. -/
def log (s : Scan) (level : LogLevel) (message : String) (fields : List (String × LogValue)) :
    Scan :=
  let entry : LogEntry :=
    ⟨level, Text.ascii message, fields.map fun field => (Text.ascii field.1, field.2)⟩
  { s with events := s.events.push (.log entry) }

/-- Keep a diagnostic and tell it. -/
def report (s : Scan) (d : Diagnostic) : Scan :=
  { s with
    program := { s.program with diagnostics := s.program.diagnostics.push d }
    events := s.events.push (.diagnostic d) }

/-- Add the record of a line that emits nothing. -/
def addDirective (s : Scan) (source : SourceLine) : Scan :=
  { s with program := s.program.addDirective ⟨source, source.classify⟩ }

/-- Define a name. A second definition is an error, and the first value stands. -/
def define (s : Scan) (name : Text) (value : UInt16) (line : Int) : Scan :=
  match s.program.symbols.define? name value with
  | none => s.report ⟨.duplicateSymbol, line⟩
  | some table =>
    { s with program := { s.program with symbols := table } }.log .debug "Symbol defined"
      [("name", .text name), ("value", .address value)]

/-- Define the label of a line, if it has one. -/
def defineLabel (s : Scan) (source : SourceLine) (value : UInt16) : Scan :=
  if source.label.isEmpty then s else s.define source.label value source.number

/-- Report the marker of a record, if it has one. -/
def reportMarker (s : Scan) (r : Record) : Scan :=
  match Diagnostic.ofRecord? r with
  | some d => s.report d
  | none => s

/-- Move the address counter over the bytes of a record. -/
def advance (s : Scan) (length : Nat) : Scan :=
  { s with emitted := s.emitted || 0 < length, address := s.address + length }

/-- Add a memory record, define its label and move on by its bytes. -/
def addMemory (s : Scan) (m : Memory) : Scan :=
  let added := { s with program := s.program.addMemory m }
  ((added.defineLabel m.source m.address).reportMarker (.memory m)).advance m.length

/-- Add a checksum over the memory records since the last one. -/
def addChecksum (s : Scan) (source : SourceLine) : Scan :=
  let covered :=
    List.range' s.checksumStart (s.program.memoryIndices.size - s.checksumStart)
  let added := s.addMemory (.checksum ⟨source, UInt16.ofNat s.address, covered⟩)
  { added with checksumStart := added.program.memoryIndices.size }

/-- The operand of a directive with a leading star replaced by the current address and then every
known name by its value, longer ones first. -/
def argumentText (s : Scan) (operand : Text) : Text :=
  let placed := match operand with
    | [] => []
    | b :: rest => if b = Byte.star then Literal.ofAddress s.address ++ rest else b :: rest
  s.program.symbols.byLength.foldl
    (fun t symbol => t.replaceAll symbol.name (Literal.ofAddress symbol.value.toNat)) placed

/-- The value that the operand of a directive means. It has to be an address. -/
def argument (s : Scan) (operand : Text) : Except Fault Int64 :=
  match Expression.evaluate (s.argumentText operand) with
  | .error cause => .error (.argument operand cause)
  | .ok value =>
    if value < 0 || 0xFFFF < value then .error (.outOfRange value operand) else .ok value

/-- The low sixteen bits of a value. -/
def wordOf (value : Int64) : UInt16 := UInt16.ofInt value.toInt

/-- The fault of a state that has run out of room. -/
def limitFault? (s : Scan) : Option Fault :=
  if Fault.maxAddress < s.address then some (.addressExceeded s.address)
  else if s.program.symbols.isExceeded then some .symbolsExceeded
  else none

/-- A state with the fault it may have. -/
def checked (s : Scan) : Scan × Option Fault := (s, s.limitFault?)

/-- Move the counter to a value, and the start of the program to its address. -/
def moveTo (s : Scan) (value : Int64) : Scan :=
  { s with
    address := value.toInt.toNat
    program := { s.program with origin := wordOf value } }.log
      .debug "Origin set" [("address", .address (wordOf value))]

/-- Set the start address, unless some record has taken a byte. -/
def setOrigin (s : Scan) (source : SourceLine) : Scan × Option Fault :=
  if s.emitted then
    (s.log .warn "Ignoring ORG after code" [("line", .number source.number)]).checked
  else
    match s.argument source.operand with
    | .error fault => (s, some fault)
    | .ok value => (s.moveTo value).checked

/-- Define a constant. The operand of a second definition is not looked at. -/
def defineConstant (s : Scan) (source : SourceLine) : Scan × Option Fault :=
  if source.label.isEmpty then (s, some .missingName)
  else if s.program.symbols.has source.label then
    (s.report ⟨.duplicateSymbol, source.number⟩).checked
  else
    match s.argument source.operand with
    | .error fault => (s, some fault)
    | .ok value => (s.define source.label (wordOf value) source.number).checked

/-- The state after a line that could be read. -/
def scanSource (s : Scan) (source : SourceLine) : Scan × Option Fault :=
  match source.classify with
  | .comment | .finish => (s.addDirective source).checked
  | .origin => (s.addDirective source).setOrigin source
  | .constant => (s.addDirective source).defineConstant source
  | .checksum => (s.addChecksum source).checked
  | .instruction =>
    match Instruction.create? source (UInt16.ofNat s.address) s.program.symbols with
    | none => (s, some (.unknownOpcode source.mnemonic))
    | some i => (s.addMemory (.instruction i)).checked

/-- The state after a line, and the error that stops the pass there. -/
def scanLine (s : Scan) (number : Int) (line : Text) : Scan × Option FatalError :=
  match SourceLine.parse number line with
  | .error cause => (s, some ⟨number, .lineTooLong cause⟩)
  | .ok source =>
    let (next, fault) := s.scanSource source
    (next, fault.map fun f => ⟨number, f⟩)

/-- The state after the lines that follow the given number of lines. The run may be called off
before a line once that many lines have been read. -/
def scanLines (cancelAt : Option Nat) : Scan → Nat → List Text → Scan × Option Failure
  | s, _, [] => (s, none)
  | s, count, line :: rest =>
    if cancelAt.any (· ≤ count) then (s, some (.canceled (count + 1)))
    else
      match s.scanLine (count + 1) line with
      | (next, some e) => (next, some (.fatal e))
      | (next, none) => scanLines cancelAt next (count + 1) rest

end Scan

end ColumnAssembler
