import ColumnAssembler.Instruction

/-!
# Faults

Errors that stop the assembly, each with the line it was found on. Faults fall into four kinds,
which give the start of the message; the cause follows.
-/

namespace ColumnAssembler

/-- The kinds of faults. -/
inductive FaultKind where
  /-- The mnemonic is not known. -/
  | unknownOpcode
  /-- An operand has no usable value. -/
  | badOperand
  /-- The line is too long. -/
  | lineTooLong
  /-- There is no room for more code or symbols. -/
  | resourceExhausted
  deriving DecidableEq, Repr

namespace FaultKind

/-- The number of a kind. -/
def code : FaultKind → Nat
  | unknownOpcode => 0
  | badOperand => 1
  | lineTooLong => 2
  | resourceExhausted => 3

/-- The kind with the given number. -/
def ofCode? : Int → Option FaultKind
  | 0 => some unknownOpcode
  | 1 => some badOperand
  | 2 => some lineTooLong
  | 3 => some resourceExhausted
  | _ => none

/-- The wording of a kind. -/
def name : FaultKind → Text
  | unknownOpcode => Text.ascii "unknown opcode"
  | badOperand => Text.ascii "bad operand"
  | lineTooLong => Text.ascii "line too long"
  | resourceExhausted => Text.ascii "memory full"

/-- The wording of the kind with the given number. -/
def nameOfCode (code : Int) : Text :=
  match ofCode? code with
  | some kind => kind.name
  | none => Numeral.unnamed "Kind" code

end FaultKind

/-- Why the assembly stops. -/
inductive Fault where
  /-- The line has too many bytes. -/
  | lineTooLong (cause : LineTooLong)
  /-- The mnemonic is not in the encoding table. -/
  | unknownOpcode (mnemonic : Text)
  /-- A constant has no name. -/
  | missingName
  /-- The operand of a directive has no value. -/
  | argument (operand : Text) (cause : ExpressionError)
  /-- The operand of a directive is no address. -/
  | outOfRange (value : Int64) (operand : Text)
  /-- The operand of an instruction has no value in the end. -/
  | unresolved (cause : UnresolvedOperand)
  /-- The code does not fit in memory. -/
  | addressExceeded (address : Nat)
  /-- There are too many symbols. -/
  | symbolsExceeded
  deriving DecidableEq, Repr

namespace Fault

/-- The largest address. -/
def maxAddress : Nat := 0xFFFF

/-- The kind of a fault. -/
def kind : Fault → FaultKind
  | lineTooLong _ => .lineTooLong
  | unknownOpcode _ => .unknownOpcode
  | missingName | argument .. | outOfRange .. | unresolved _ => .badOperand
  | addressExceeded _ | symbolsExceeded => .resourceExhausted

/-- The wording of a cause. -/
def message : Fault → Text
  | lineTooLong cause => cause.message
  | unknownOpcode mnemonic => Text.ascii "unknown opcode " ++ mnemonic.cited
  | missingName => Text.ascii "missing symbol name"
  | argument operand cause =>
    Text.ascii "evaluating " ++ operand.cited ++ Text.ascii ": " ++ cause.message
  | outOfRange value operand =>
    Text.ascii "value $" ++ Numeral.renderInt 16 value.toInt ++ Text.ascii " of "
      ++ operand.cited ++ Text.ascii " out of range"
  | unresolved cause => cause.message
  | addressExceeded address =>
    Text.ascii "address $" ++ Numeral.hex address ++ Text.ascii " exceeds $"
      ++ Numeral.hex maxAddress
  | symbolsExceeded =>
    Text.ascii "more than " ++ Numeral.decimal SymbolTable.maxSymbols ++ Text.ascii " symbols"

end Fault

/-- A fault with its line. -/
structure FatalError where
  /-- The line that stops the assembly. -/
  line : Int
  /-- The cause. -/
  fault : Fault
  deriving DecidableEq, Repr

namespace FatalError

/-- The start of the message, and the whole message when there is no cause. -/
def headline (kindName : Text) (line : Int) : Text :=
  kindName ++ Text.ascii " in line: " ++ Numeral.decimalInt line

/-- A message with its cause. -/
def messageFor (kindName : Text) (line : Int) (cause : Text) : Text :=
  headline kindName line ++ Text.ascii ": " ++ cause

/-- The wording of a fatal error. -/
def message (e : FatalError) : Text := messageFor e.fault.kind.name e.line e.fault.message

end FatalError

/-- Why a run ends early. -/
inductive Failure where
  /-- A line cannot be assembled. -/
  | fatal (e : FatalError)
  /-- The run was called off before the given line. -/
  | canceled (line : Int)
  deriving DecidableEq, Repr

/-- The wording of a failure. -/
def Failure.message : Failure → Text
  | fatal e => e.message
  | canceled line =>
    Text.ascii "assembling line " ++ Numeral.decimalInt line ++ Text.ascii ": context canceled"

end ColumnAssembler
