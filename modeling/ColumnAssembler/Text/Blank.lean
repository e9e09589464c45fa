import ColumnAssembler.Text

/-!
# White space

The white space characters of Unicode, by their encodings. The first byte of each encoding never
continues another character, so a text can be searched for them byte by byte, from either end,
whether or not it is well encoded.
-/

namespace ColumnAssembler.Text

/-- The white space characters of one byte. -/
def isBlankByte (b : UInt8) : Bool := (0x09 ≤ b && b ≤ 0x0D) || b == 0x20

/-- The white space characters of two bytes: next line and the no-break space. -/
def isBlankPair (b c : UInt8) : Bool := b == 0xC2 && (c == 0x85 || c == 0xA0)

/-- The white space characters of three bytes: the ogham space, the spaces of typesetting, the line
and paragraph separators and the ideographic space. -/
def isBlankTriple (b c d : UInt8) : Bool :=
  (b == 0xE1 && c == 0x9A && d == 0x80)
    || (b == 0xE2 && c == 0x80 && ((0x80 ≤ d && d ≤ 0x8A) || d == 0xA8 || d == 0xA9 || d == 0xAF))
    || (b == 0xE2 && c == 0x81 && d == 0x9F)
    || (b == 0xE3 && c == 0x80 && d == 0x80)

/-- The number of bytes of the white space character a text starts with, zero when there is none. -/
def blankWidth : Text → Nat
  | [] => 0
  | [b] => if isBlankByte b then 1 else 0
  | [b, c] => if isBlankByte b then 1 else if isBlankPair b c then 2 else 0
  | b :: c :: d :: _ =>
    if isBlankByte b then 1 else if isBlankPair b c then 2 else if isBlankTriple b c d then 3 else 0

/-- The number of bytes of the white space character a text ends with, read off its reverse. -/
def blankWidthBack : Text → Nat
  | [] => 0
  | [b] => if isBlankByte b then 1 else 0
  | [c, b] => if isBlankByte c then 1 else if isBlankPair b c then 2 else 0
  | d :: c :: b :: _ =>
    if isBlankByte d then 1 else if isBlankPair c d then 2 else if isBlankTriple b c d then 3 else 0

/-- Drop items from the front as long as the measure finds some. The counter is the number of bytes
that the last find still covers. -/
def dropMeasured (measure : Text → Nat) : Nat → Text → Text
  | _, [] => []
  | covered + 1, _ :: rest => dropMeasured measure covered rest
  | 0, b :: rest =>
    match measure (b :: rest) with
    | 0 => b :: rest
    | width + 1 => dropMeasured measure width rest

/-- The text without white space at its start. -/
def trimStart (t : Text) : Text := dropMeasured blankWidth 0 t

/-- The text without white space at its end. -/
def trimEnd (t : Text) : Text := (dropMeasured blankWidthBack 0 t.reverse).reverse

/-- The text without white space at either end. -/
def trim (t : Text) : Text := trimEnd (trimStart t)

/-- Put a finished field, collected backwards, in front of the others unless it is empty. -/
def closeField (collected : Text) (fields : List Text) : List Text :=
  if collected.isEmpty then fields else collected.reverse :: fields

/-- The fields of a text between white space. The counter is the number of bytes that the last white
space character still covers, and the field under way is collected backwards. -/
def fieldsFrom : Nat → Text → Text → List Text
  | _, collected, [] => closeField collected []
  | covered + 1, collected, _ :: rest => fieldsFrom covered collected rest
  | 0, collected, b :: rest =>
    match blankWidth (b :: rest) with
    | 0 => fieldsFrom 0 (b :: collected) rest
    | width + 1 => closeField collected (fieldsFrom width [] rest)

/-- The non-empty pieces of a text between runs of white space. -/
def fields (t : Text) : List Text := fieldsFrom 0 [] t

end ColumnAssembler.Text
