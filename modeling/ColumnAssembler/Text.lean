/-!
# Byte text

Source lines, symbol names, messages and file contents are strings of bytes. No encoding is
promised: a text may hold bytes that form no character. This module has the named bytes of the
source notation and the operations that look at bytes only: cutting, replacing a non-empty name,
padding and the bytewise order of names.
-/

namespace ColumnAssembler

/-- A string of bytes in no promised encoding. -/
abbrev Text := List UInt8

namespace Byte

/-- Horizontal tab. -/
@[simp] abbrev tab : UInt8 := 0x09
/-- End of a line. -/
@[simp] abbrev lineFeed : UInt8 := 0x0A
/-- Dropped in front of the end of a line. -/
@[simp] abbrev carriageReturn : UInt8 := 0x0D
/-- The blank that pads columns. -/
@[simp] abbrev space : UInt8 := 0x20
/-- One of the two quotes of a character literal. -/
@[simp] abbrev doubleQuote : UInt8 := 0x22
/-- Marks an immediate operand. -/
@[simp] abbrev hash : UInt8 := 0x23
/-- Marks a hexadecimal literal. -/
@[simp] abbrev dollar : UInt8 := 0x24
/-- Marks a binary literal. -/
@[simp] abbrev percent : UInt8 := 0x25
/-- One of the two quotes of a character literal. -/
@[simp] abbrev apostrophe : UInt8 := 0x27
/-- Opens an indirect operand. -/
@[simp] abbrev openParen : UInt8 := 0x28
/-- Closes an indirect operand. -/
@[simp] abbrev closeParen : UInt8 := 0x29
/-- Starts a comment line, and stands for the current address in a directive. -/
@[simp] abbrev star : UInt8 := 0x2A
/-- Separates an operand from its index register. -/
@[simp] abbrev comma : UInt8 := 0x2C
/-- Introduces an option, and the sign of a negative number. -/
@[simp] abbrev minus : UInt8 := 0x2D
/-- Separates a file name from its extension. -/
@[simp] abbrev dot : UInt8 := 0x2E
/-- Separates the parts of a path. -/
@[simp] abbrev slash : UInt8 := 0x2F
/-- The digit zero, which pads numbers. -/
@[simp] abbrev zero : UInt8 := 0x30
/-- Ends the address of an object line. -/
@[simp] abbrev colon : UInt8 := 0x3A
/-- Starts a comment. -/
@[simp] abbrev semicolon : UInt8 := 0x3B
/-- Separates an option from its value. -/
@[simp] abbrev equals : UInt8 := 0x3D
/-- Takes away the meaning of the byte after it. -/
@[simp] abbrev backslash : UInt8 := 0x5C

end Byte

namespace Text

/-- The bytes of a literal that has ASCII characters only. -/
def ascii (literal : String) : Text := literal.toList.map fun c => c.toNat.toUInt8

/-- The text without the given start, or the text itself when it starts otherwise. -/
def withoutStart (start t : Text) : Text :=
  if start.isPrefixOf t then t.drop start.length else t

/-- The text without the given end, or the text itself when it ends otherwise. -/
def withoutEnd (ending t : Text) : Text :=
  if ending.isSuffixOf t then t.take (t.length - ending.length) else t

/-- The part before the first occurrence of a byte; the whole text when it does not occur. -/
def before (b : UInt8) (t : Text) : Text := t.takeWhile (· ≠ b)

/-- The part after the first occurrence of a byte, if it occurs. -/
def after? (b : UInt8) (t : Text) : Option Text :=
  match t.dropWhile (· ≠ b) with
  | [] => none
  | _ :: rest => some rest

/-- Replace the occurrences of a non-empty name from left to right, none overlapping the one before.
The counter is the number of bytes still covered by the last occurrence. -/
def replaceFrom (name value : Text) : Nat → Text → Text
  | _, [] => []
  | covered + 1, _ :: rest => replaceFrom name value covered rest
  | 0, c :: rest =>
    if name.isPrefixOf (c :: rest) then value ++ replaceFrom name value (name.length - 1) rest
    else c :: replaceFrom name value 0 rest

/-- Whether a byte is one of the four that no expression may hold. -/
def isSeparator (b : UInt8) : Bool :=
  b == Byte.space || b == Byte.tab || b == Byte.carriageReturn || b == Byte.lineFeed

/-- Whether a byte is one of the two quotes. -/
def isQuote (b : UInt8) : Bool := b == Byte.apostrophe || b == Byte.doubleQuote

/-- The text between apostrophes, as messages cite it. -/
def cited (t : Text) : Text := Byte.apostrophe :: (t ++ [Byte.apostrophe])

/-- The text without its trailing blanks. -/
def withoutTrailingSpaces (t : Text) : Text :=
  (t.reverse.dropWhile (· = Byte.space)).reverse

/-- Put copies of a byte in front until the text has the given length. -/
def padLeft (b : UInt8) (width : Nat) (t : Text) : Text :=
  List.replicate (width - t.length) b ++ t

/-- Bytewise order: a text comes before its extensions, else the first difference decides. -/
def notAfter : Text → Text → Bool
  | [], _ => true
  | _ :: _, [] => false
  | a :: as, b :: bs => a < b || (a == b && notAfter as bs)

end Text

end ColumnAssembler
