import ColumnAssembler.Journal
import ColumnAssembler.ObjectFile

/-!
# Verification

A written object file is read back and compared with the program, line by line. The first few
differences are logged.
-/

namespace ColumnAssembler

/-- Why an object file does not verify. -/
inductive VerifyError where
  /-- There is no path. -/
  | noOutput
  /-- The file cannot be opened. -/
  | opening (path : Text) (cause : PathError)
  /-- The file is no object file. -/
  | parsing (path : Text) (cause : ObjectError)
  /-- The numbers of lines differ. -/
  | lineCount (expected got : Nat)
  /-- Some lines differ. -/
  | mismatches (count : Nat)
  deriving DecidableEq, Repr

/-- The wording of a verify error. -/
def VerifyError.message : VerifyError → Text
  | noOutput => Text.ascii "no object file to verify"
  | opening path cause =>
    Text.ascii "opening object file " ++ path.cited ++ Text.ascii ": " ++ cause.message
  | parsing path cause =>
    Text.ascii "parsing object file " ++ path.cited ++ Text.ascii ": " ++ cause.message
  | lineCount expected got =>
    Text.ascii "mismatched line count, " ++ Numeral.decimal expected ++ Text.ascii " != "
      ++ Numeral.decimal got
  | mismatches count => Numeral.decimal count ++ Text.ascii " line mismatches"

/-- A line that differs from the program. -/
structure LineMismatch where
  /-- The number of the line, counted from one. -/
  number : Nat
  /-- The line of the program. -/
  expected : ObjectLine
  /-- The line of the file. -/
  got : ObjectLine
  deriving DecidableEq, Repr

namespace Verification

/-- The largest number of differences that are logged. -/
def maxReported : Nat := 10

/-- Bytes in two hexadecimal digits each with blanks between them. -/
def bytesText (data : List UInt8) : Text :=
  List.intercalate [Byte.space] (data.map Numeral.hexByte)

/-- The log entry for a difference. -/
def entry (m : LineMismatch) : LogEntry :=
  ⟨.error, Text.ascii "Object line mismatch",
    [(Text.ascii "line", .number m.number),
      (Text.ascii "expected_address", .address m.expected.address),
      (Text.ascii "address", .address m.got.address),
      (Text.ascii "expected", .text (bytesText m.expected.data)),
      (Text.ascii "got", .text (bytesText m.got.data))]⟩

/-- The differences between two lists of lines, the lines numbered from one. -/
def mismatches (expected got : List ObjectLine) : List LineMismatch :=
  ((expected.zip got).zipIdx 1).filterMap fun ((e, g), number) =>
    if e = g then none else some ⟨number, e, g⟩

/-- Compare the lines of a program with those of a file. -/
def compare (expected got : List ObjectLine) : List LogEntry × Option VerifyError :=
  if expected.length ≠ got.length then ([], some (.lineCount expected.length got.length))
  else
    let differences := mismatches expected got
    ((differences.take maxReported).map entry,
      if differences.isEmpty then none else some (.mismatches differences.length))

/-- Read the object file at a path and compare it with the program. -/
def verify (tree : FileTree) (path : Text) (p : Program) : List LogEntry × Option VerifyError :=
  if path.isEmpty then ([], some .noOutput)
  else
    match tree.openNode path with
    | .error cause => ([], some (.opening path cause))
    | .ok node =>
      match ObjectFile.parseReading (.ofNode path node) with
      | .error cause => ([], some (.parsing path cause))
      | .ok got => compare (ObjectFile.lines p) got

end Verification

end ColumnAssembler
