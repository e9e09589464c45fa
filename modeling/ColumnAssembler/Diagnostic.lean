import ColumnAssembler.Record

/-!
# Diagnostics

Errors that do not stop the assembly, each with the line it was found on. A record that carries an
error marker has one diagnostic; a label that is defined twice has another.
-/

namespace ColumnAssembler

/-- The kinds of diagnostics. -/
inductive DiagnosticKind where
  /-- A name is defined again. -/
  | duplicateSymbol
  /-- The target of a branch is out of reach. -/
  | badBranch
  /-- The mnemonic has no mode for the operand. -/
  | badAddressMode
  /-- A kind known by its number only; the assembly reports none of these. -/
  | unlisted (code : Int)
  deriving DecidableEq, Repr

namespace DiagnosticKind

/-- The kind with the given number. -/
def ofCode : Int → DiagnosticKind
  | 0 => duplicateSymbol
  | 1 => badBranch
  | 2 => badAddressMode
  | code => unlisted code

/-- The wording of a kind. -/
def name : DiagnosticKind → Text
  | duplicateSymbol => Text.ascii "Duplicate symbol"
  | badBranch => Text.ascii "Bad branch"
  | badAddressMode => Text.ascii "Bad address mode"
  | unlisted code => Numeral.unnamed "Kind" code

/-- The kind that reports a marker. -/
def ofMarker : Marker → DiagnosticKind
  | .badBranch => badBranch
  | .badAddressMode => badAddressMode

end DiagnosticKind

/-- An error on a line that does not stop the assembly. -/
structure Diagnostic where
  /-- What is wrong. -/
  kind : DiagnosticKind
  /-- The line it was found on. -/
  line : Int
  deriving DecidableEq, Repr

namespace Diagnostic

/-- The message as listings print it. -/
def message (d : Diagnostic) : Text :=
  d.kind.name ++ Text.ascii " in line: " ++ Numeral.decimalInt d.line

/-- What a user is shown who has to acknowledge the diagnostic. -/
def prompt (d : Diagnostic) : Text :=
  d.message ++ [Byte.lineFeed] ++ Text.ascii "Press enter to continue..."

/-- The diagnostic for the marker of a record. -/
def ofRecord? (r : Record) : Option Diagnostic :=
  r.marker?.map fun marker => ⟨.ofMarker marker, r.source.number⟩

end Diagnostic

end ColumnAssembler
