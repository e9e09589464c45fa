import ColumnAssembler.Text

/-!
# Addressing modes

The addressing modes of the processor, the opcodes a mnemonic has for them, and the choice of a
mode from the syntax of an operand and the width of its value. An operand that is not known yet
counts as narrow and as wide, so that no mode is ruled out before its value is known.
-/

namespace ColumnAssembler

/-- The addressing modes of the processor. -/
inductive Mode where
  /-- No operand. -/
  | implied
  /-- The accumulator. -/
  | accumulator
  /-- The operand itself. -/
  | immediate
  /-- A full address. -/
  | absolute
  /-- An address in the first page. -/
  | zeroPage
  /-- A full address plus X. -/
  | absoluteX
  /-- An address in the first page plus X. -/
  | zeroPageX
  /-- A full address plus Y. -/
  | absoluteY
  /-- An address in the first page plus Y. -/
  | zeroPageY
  /-- The address stored at an address. -/
  | indirect
  /-- The address stored at an address plus X. -/
  | indirectX
  /-- The address stored at an address, plus Y. -/
  | indirectY
  /-- A displacement from the next instruction. -/
  | relative
  deriving DecidableEq, Repr

namespace Mode

/-- The short name of a mode. -/
def name : Mode → Text
  | implied => Text.ascii "imp"
  | accumulator => Text.ascii "acc"
  | immediate => Text.ascii "imm"
  | absolute => Text.ascii "abs"
  | zeroPage => Text.ascii "zrp"
  | absoluteX => Text.ascii "abx"
  | zeroPageX => Text.ascii "zpx"
  | absoluteY => Text.ascii "aby"
  | zeroPageY => Text.ascii "zpy"
  | indirect => Text.ascii "ind"
  | indirectX => Text.ascii "inx"
  | indirectY => Text.ascii "iny"
  | relative => Text.ascii "rel"

/-- All modes, in the order of their numbers. -/
def all : List Mode :=
  [implied, accumulator, immediate, absolute, zeroPage, absoluteX, zeroPageX, absoluteY, zeroPageY,
    indirect, indirectX, indirectY, relative]

/-- The number of a mode: one bit for each. -/
def code (mode : Mode) : Nat := 1 <<< (all.idxOf mode + 1)

/-- The mode with the given number. -/
def ofCode? (code : Int) : Option Mode := all.find? fun mode => (mode.code : Int) == code

/-- No two modes share a number. -/
@[simp] theorem ofCode?_code (mode : Mode) : ofCode? mode.code = some mode := by
  cases mode <;> rfl

/-- The short name of a mode that may be missing. -/
def nameOr : Option Mode → Text
  | some mode => mode.name
  | none => Text.ascii "???"

end Mode

/-- The width of an operand value. -/
inductive Width where
  /-- There is no value. -/
  | noOperand
  /-- The value is not known yet. -/
  | unresolved
  /-- The value fits in one byte. -/
  | byte
  /-- The value takes two bytes. -/
  | word
  deriving DecidableEq, Repr

namespace Width

/-- The width of a value. A negative value wraps around into two bytes. -/
def of (value : Int64) : Width := if value < 0 || 0xFF < value then word else byte

/-- The width may be one byte. -/
def isNarrow (width : Width) : Bool := width == byte || width == unresolved

/-- The width may be two bytes. -/
def isWide (width : Width) : Bool := width == word || width == unresolved

/-- The number of a width. -/
def code : Width → Nat
  | noOperand => 0
  | unresolved => 1
  | byte => 2
  | word => 3

/-- The width with the given number; the unnumbered ones are neither narrow nor wide. -/
def ofCode : Int → Width
  | 1 => unresolved
  | 2 => byte
  | 3 => word
  | _ => noOperand

end Width

/-- The opcodes that a mnemonic has, by mode. -/
abbrev Encodings := List (Mode × UInt8)

namespace Encodings

/-- The opcode for a mode. -/
def opcode? (modes : Encodings) (mode : Mode) : Option UInt8 := modes.lookup mode

/-- Whether there is an opcode for the mode. -/
def supports (modes : Encodings) (mode : Mode) : Bool := (modes.opcode? mode).isSome

/-- Whether the operand names the accumulator for a mnemonic that can work on it. -/
def isAccumulatorOperand (modes : Encodings) (operand : Text) : Bool :=
  operand == Text.ascii "A" && modes.supports .accumulator

/-- Whether the operand has a value. -/
def hasValue (modes : Encodings) (operand : Text) : Bool :=
  !operand.isEmpty && !modes.isAccumulatorOperand operand

/-- A narrow mode if the width may be narrow, then a wide mode if it may be wide. -/
def byWidth (width : Width) (narrow wide : List Mode) : List Mode :=
  (if width.isNarrow then narrow else []) ++ (if width.isWide then wide else [])

/-- The modes that an operand may select, the preferred one first. -/
def candidates (modes : Encodings) (operand : Text) (width : Width) : List Mode :=
  if !modes.hasValue operand then [.implied, .accumulator]
  else if [Byte.hash].isPrefixOf operand && modes.supports .immediate then [.immediate]
  else if [Byte.openParen].isPrefixOf operand then
    if (Text.ascii "),Y").isSuffixOf operand then [.indirectY, .indirect]
    else if (Text.ascii ",X)").isSuffixOf operand then [.indirectX, .indirect]
    else [.indirect]
  else if (Text.ascii ",X").isSuffixOf operand then byWidth width [.zeroPageX] [.absoluteX]
  else if (Text.ascii ",Y").isSuffixOf operand then byWidth width [.zeroPageY] [.absoluteY]
  else byWidth width [.relative, .zeroPage] [.absolute]

/-- The mode that an operand selects: the first of its candidates that has an opcode. -/
def infer (modes : Encodings) (operand : Text) (width : Width) : Option Mode :=
  (modes.candidates operand width).find? modes.supports

end Encodings

end ColumnAssembler
