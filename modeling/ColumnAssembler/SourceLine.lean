import ColumnAssembler.Numeral
import ColumnAssembler.Text.Blank
import ColumnAssembler.Text.UpperCase

/-!
# Source lines

A source line has fixed columns: the label in the first eight bytes, the mnemonic in the next
five, the operand in the next eleven, and a comment after them. The three columns are read in
upper case, the comment stays as it is. The line is padded before it is cut, so a short line has
empty columns.
-/

namespace ColumnAssembler

/-- What a source line is for. -/
inductive LineClass where
  /-- An instruction of the processor. -/
  | instruction
  /-- Nothing to do. -/
  | comment
  /-- The end mark, which has no effect. -/
  | finish
  /-- Sets the start address. -/
  | origin
  /-- Defines a constant. -/
  | constant
  /-- Emits a checksum byte. -/
  | checksum
  deriving DecidableEq, Repr

/-- The number of a line class. -/
def LineClass.code : LineClass → Nat
  | instruction => 0
  | comment => 1
  | finish => 2
  | origin => 3
  | constant => 4
  | checksum => 5

/-- A source line is longer than allowed. -/
structure LineTooLong where
  /-- The number of bytes of the line. -/
  length : Nat
  deriving DecidableEq, Repr

/-- The wording of the error for a long line. -/
def LineTooLong.message (e : LineTooLong) : Text :=
  Text.ascii "line too long: " ++ Numeral.decimal e.length ++ Text.ascii " characters"

/-- A source line in normal form, cut into its columns. -/
structure SourceLine where
  /-- The number of the line, counted from one. -/
  number : Int
  /-- The whole line with its columns in upper case, without trailing blanks. -/
  raw : Text
  /-- The label column. -/
  label : Text
  /-- The mnemonic column. -/
  mnemonic : Text
  /-- The operand column. -/
  operand : Text
  deriving DecidableEq, Repr

namespace SourceLine

/-- The largest number of bytes of a line. -/
def maxLength : Nat := 64

/-- Where the label column ends and the mnemonic column starts. -/
def labelEnd : Nat := 8

/-- Where the mnemonic column ends and the operand column starts. -/
def mnemonicEnd : Nat := 13

/-- Where the operand column ends and the comment starts. -/
def operandEnd : Nat := 24

/-- The width that lines are padded to. -/
def paddedWidth : Nat := 63

/-- The line without one line feed and then one carriage return at its end. -/
def withoutLineEnd (line : Text) : Text :=
  Text.withoutEnd [Byte.carriageReturn] (Text.withoutEnd [Byte.lineFeed] line)

/-- The padded line with its three columns in upper case. -/
def normalize (line : Text) : Text :=
  let padded := line.padRight paddedWidth
  Text.upper (padded.take operandEnd) ++ padded.drop operandEnd

/-- Cut a normalized line into its columns. -/
def ofNormalized (number : Int) (line : Text) : SourceLine where
  number := number
  raw := line.withoutTrailingSpaces
  label := Text.trim (line.take labelEnd)
  mnemonic := Text.trim ((line.take mnemonicEnd).drop labelEnd)
  operand := Text.trim ((line.take operandEnd).drop mnemonicEnd)

/-- Read a source line. -/
def parse (number : Int) (line : Text) : Except LineTooLong SourceLine :=
  let content := withoutLineEnd line
  if maxLength < content.length then .error ⟨content.length⟩
  else .ok (ofNormalized number (normalize content))

/-- Whether the line holds no code: it is blank, starts with a star, or its first character is a
semicolon. -/
def isComment (s : SourceLine) : Bool :=
  let content := s.raw.trim
  content.isEmpty || [Byte.star].isPrefixOf s.raw || [Byte.semicolon].isPrefixOf content

/-- What the line is for. -/
def classify (s : SourceLine) : LineClass :=
  if s.isComment then .comment
  else if s.mnemonic = Text.ascii "END" then .finish
  else if s.mnemonic = Text.ascii "ORG" then .origin
  else if s.mnemonic = Text.ascii "EQU" then .constant
  else if s.mnemonic = Text.ascii "CHK" then .checksum
  else .instruction

end SourceLine

end ColumnAssembler
