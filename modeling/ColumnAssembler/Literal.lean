import ColumnAssembler.Numeral
import ColumnAssembler.Text.Glyph

/-!
# Literals

A literal is a numeral in one of five notations: hexadecimal after a dollar sign, octal after the
letter O, binary after a percent sign, decimal, and a single byte in quotes. The parentheses and
the hash of an operand are decoration and do not belong to the literal. Values are 64-bit signed
words; a numeral denotes at most 32 bits.
-/

namespace ColumnAssembler

/-- The notation of a literal. -/
inductive LiteralFormat where
  /-- A dollar sign and hexadecimal digits. -/
  | hexadecimal
  /-- Decimal digits alone. -/
  | decimal
  /-- The letter O and octal digits. -/
  | octal
  /-- A percent sign and binary digits. -/
  | binary
  /-- One byte between quotes. -/
  | character
  deriving DecidableEq, Repr

/-- The notation with the given number; numbers without a notation mean decimal. -/
def LiteralFormat.ofCode : Int → LiteralFormat
  | 0 => .hexadecimal
  | 2 => .octal
  | 3 => .binary
  | 4 => .character
  | _ => .decimal

/-- Why a text is no literal. -/
inductive LiteralError where
  /-- Nothing is left besides decoration. -/
  | empty
  /-- There is a blank, a tab or an end of line in the text. -/
  | whitespace (t : Text)
  /-- The mark of a notation stands alone. -/
  | noDigits (t : Text)
  /-- The digits are no number of the base, or the number has more than 32 bits. -/
  | notNumber (t : Text) (base : Nat)
  /-- There is not exactly one byte besides quotes. -/
  | notCharacter (t : Text)
  deriving DecidableEq, Repr

/-- The wording of a literal error. -/
def LiteralError.message : LiteralError → Text
  | empty => Text.ascii "empty literal"
  | whitespace t => Text.ascii "whitespace in expression: " ++ t.cited
  | noDigits t => Text.ascii "invalid literal: " ++ t.cited ++ Text.ascii " has no digits"
  | notNumber t base =>
    Text.ascii "invalid literal: " ++ t.cited ++ Text.ascii " is not a base "
      ++ Numeral.decimal base ++ Text.ascii " number"
  | notCharacter t =>
    Text.ascii "invalid literal: " ++ t.cited ++ Text.ascii " is not a single character"

namespace Literal

/-- The largest number a numeral may denote. -/
def maxValue : Nat := 0xFFFFFFFF

/-- The text without one opening parenthesis, then one hash, then one closing parenthesis. -/
def undecorated (t : Text) : Text :=
  Text.withoutEnd [Byte.closeParen] <|
    Text.withoutStart [Byte.hash] (Text.withoutStart [Byte.openParen] t)

/-- The value of the digits of a literal. -/
def parseDigits (literal digits : Text) (base : Nat) : Except LiteralError Int64 :=
  if digits.isEmpty then .error (.noDigits literal)
  else
    match Numeral.read base maxValue digits with
    | .ok n => .ok (Int64.ofNat n)
    | .error _ => .error (.notNumber literal base)

/-- The value of a quoted byte: the only one left when all quotes are dropped. -/
def parseCharacter (literal : Text) : Except LiteralError Int64 :=
  match literal.filter fun b => !Text.isQuote b with
  | [b] => .ok (Int64.ofNat b.toNat)
  | _ => .error (.notCharacter literal)

/-- The value of a literal without decoration. The first byte tells the notation. -/
def parseUndecorated (literal : Text) : Except LiteralError Int64 :=
  if literal.any Text.isSeparator then .error (.whitespace literal)
  else
    match literal with
    | [] => .error .empty
    | mark :: digits =>
      if mark = Byte.dollar then parseDigits literal digits 16
      else if mark = 0x6F ∨ mark = 0x4F then parseDigits literal digits 8
      else if mark = Byte.percent then parseDigits literal digits 2
      else if Text.isQuote mark then parseCharacter literal
      else parseDigits literal literal 10

/-- The value of a literal, decoration allowed. -/
def parse (t : Text) : Except LiteralError Int64 := parseUndecorated (undecorated t)

/-- Hexadecimal digits of a value. A negative value wraps around into the 16-bit address space. -/
def hex (value : Int64) : Text :=
  if value < 0 then Numeral.hex (value.toInt % 0x10000).toNat else Numeral.hex value.toInt.toNat

/-- The literal of a value in the given notation. Octal and binary put a minus in front of the
digits of a negative value, and a character has the low 32 bits of the value as its code point. -/
def format (value : Int64) : LiteralFormat → Text
  | .hexadecimal => Byte.dollar :: hex value
  | .decimal => Numeral.decimalInt value.toInt
  | .octal => 0x4F :: Numeral.renderInt 8 value.toInt
  | .binary => Byte.percent :: Numeral.renderInt 2 value.toInt
  | .character =>
    let code := value.toInt32.toInt
    let glyph := if code < 0 then Glyph.encodeCode Glyph.replacementCode
      else Glyph.encodeScalar code.toNat
    Byte.apostrophe :: (glyph ++ [Byte.apostrophe])

/-- The literal that takes the place of a name or of a star in an operand. -/
def ofAddress (address : Nat) : Text := format (Int64.ofNat address) .hexadecimal

end Literal

end ColumnAssembler
