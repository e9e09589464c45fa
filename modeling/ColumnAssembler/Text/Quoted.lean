import ColumnAssembler.Numeral
import ColumnAssembler.Text.Glyph
import ColumnAssembler.Text.Printable

/-!
# Quoted text

Two ways to put a text between double quotes. The quoted form of messages shows printable
characters and names every other character and every stray byte by a number. The form of log
fields follows JSON: it escapes the quote, the backslash, control characters and the two Unicode
line separators, and writes the replacement character for a stray byte.
-/

namespace ColumnAssembler.Text

/-- A number in small hexadecimal digits with zeros in front up to the given width. -/
def smallHex (width n : Nat) : Text :=
  padLeft Byte.zero width <|
    (Numeral.digits 16 n).map fun d => if d < 10 then (0x30 + d).toUInt8 else (0x57 + d).toUInt8

/-- The letter after the backslash for the control characters that have one. -/
def controlLetter? (code : Nat) : Option UInt8 :=
  [(0x07, 0x61), (0x08, 0x62), (0x09, 0x74), (0x0A, 0x6E), (0x0B, 0x76), (0x0C, 0x66),
    (0x0D, 0x72)].lookup code

/-- A glyph inside a quoted text. -/
def quotedGlyph : Glyph → Text
  | .stray byte => ascii "\\x" ++ smallHex 2 byte.toNat
  | .scalar code =>
    if code == Byte.doubleQuote.toNat || code == Byte.backslash.toNat then
      [Byte.backslash, code.toUInt8]
    else if isPrintable code then Glyph.encodeCode code
    else
      match controlLetter? code with
      | some letter => [Byte.backslash, letter]
      | none =>
        if code < 0x80 then ascii "\\x" ++ smallHex 2 code
        else if code < 0x10000 then ascii "\\u" ++ smallHex 4 code
        else ascii "\\U" ++ smallHex 8 code

/-- The text between double quotes, fit to be printed. -/
def quoted (t : Text) : Text :=
  Byte.doubleQuote :: (t.glyphs.flatMap quotedGlyph ++ [Byte.doubleQuote])

/-- A glyph inside a JSON string. -/
def jsonGlyph : Glyph → Text
  | .stray _ => Glyph.encodeCode Glyph.replacementCode
  | .scalar code =>
    if code == Byte.doubleQuote.toNat || code == Byte.backslash.toNat then
      [Byte.backslash, code.toUInt8]
    else if code == 0x0A then ascii "\\n"
    else if code == 0x0D then ascii "\\r"
    else if code == 0x09 then ascii "\\t"
    else if code < 0x20 then ascii "\\u" ++ smallHex 4 code
    else if code == 0x2028 || code == 0x2029 then ascii "\\u" ++ smallHex 4 code
    else Glyph.encodeCode code

/-- The text as a JSON string. -/
def json (t : Text) : Text :=
  Byte.doubleQuote :: (t.glyphs.flatMap jsonGlyph ++ [Byte.doubleQuote])

end ColumnAssembler.Text

namespace ColumnAssembler.Numeral

/-- The message for a numeral that cannot be read, citing the text in quotes. -/
def ReadError.message (cause : ReadError) (t : Text) : Text :=
  Text.ascii "strconv.ParseUint: parsing " ++ t.quoted ++ Text.ascii ": " ++
    match cause with
    | .malformed => Text.ascii "invalid syntax"
    | .tooLarge => Text.ascii "value out of range"

end ColumnAssembler.Numeral
