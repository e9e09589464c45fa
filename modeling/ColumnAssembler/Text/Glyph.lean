import ColumnAssembler.Text

/-!
# Characters in byte text

A text is read as a sequence of glyphs: characters in their shortest UTF-8 form, and stray bytes
that start no such character. Every stray byte counts as one glyph, and the bytes of the glyphs
are the bytes of the text in order. Widths of padded columns and the places where an empty name
occurs are counted in glyphs.
-/

namespace ColumnAssembler

/-- A character of a text, or a byte that starts none. -/
inductive Glyph where
  /-- A character with its code point. -/
  | scalar (code : Nat)
  /-- A byte outside every character. -/
  | stray (byte : UInt8)
  deriving DecidableEq, Repr

namespace Glyph

/-- The code point that stands for what cannot be read or written. -/
def replacementCode : Nat := 0xFFFD

/-- Code points of characters: all up to the last plane but the surrogates. -/
def isScalar (code : Nat) : Bool := code < 0xD800 || (0xDFFF < code && code < 0x110000)

/-- The shortest UTF-8 form of a code point. -/
def encodeCode (code : Nat) : Text :=
  if code < 0x80 then [code.toUInt8]
  else if code < 0x800 then [(0xC0 + code / 0x40).toUInt8, (0x80 + code % 0x40).toUInt8]
  else if code < 0x10000 then
    [(0xE0 + code / 0x1000).toUInt8, (0x80 + code / 0x40 % 0x40).toUInt8,
      (0x80 + code % 0x40).toUInt8]
  else
    [(0xF0 + code / 0x40000).toUInt8, (0x80 + code / 0x1000 % 0x40).toUInt8,
      (0x80 + code / 0x40 % 0x40).toUInt8, (0x80 + code % 0x40).toUInt8]

/-- The form of a number taken for a code point; one that is none gives the replacement. -/
def encodeScalar (code : Nat) : Text :=
  encodeCode (if isScalar code then code else replacementCode)

/-- The bytes a glyph has in its text. -/
def bytes : Glyph → Text
  | scalar code => encodeCode code
  | stray byte => [byte]

/-- The code point of a glyph, that of the replacement for a stray byte. -/
def code : Glyph → Nat
  | scalar code => code
  | stray _ => replacementCode

/-- The payload of a byte that continues a character. -/
def continuation? (b : UInt8) : Option Nat :=
  if 0x80 ≤ b && b < 0xC0 then some (b.toNat - 0x80) else none

/-- The code point of a two-byte character. -/
def pair? (lead second : UInt8) : Option Nat := do
  let low ← continuation? second
  let code := (lead.toNat - 0xC0) * 0x40 + low
  if 0xC0 ≤ lead && lead < 0xE0 && 0x80 ≤ code then some code else none

/-- The code point of a three-byte character. -/
def triple? (lead second third : UInt8) : Option Nat := do
  let middle ← continuation? second
  let low ← continuation? third
  let code := (lead.toNat - 0xE0) * 0x1000 + middle * 0x40 + low
  if 0xE0 ≤ lead && lead < 0xF0 && 0x800 ≤ code && isScalar code then some code else none

/-- The code point of a four-byte character. -/
def quadruple? (lead second third fourth : UInt8) : Option Nat := do
  let high ← continuation? second
  let middle ← continuation? third
  let low ← continuation? fourth
  let code := (lead.toNat - 0xF0) * 0x40000 + high * 0x1000 + middle * 0x40 + low
  if 0xF0 ≤ lead && lead < 0xF8 && 0x10000 ≤ code && isScalar code then some code else none

/-- The code point of the character that a byte starts, given the bytes after it. -/
def code? (lead : UInt8) (rest : Text) : Option Nat :=
  if lead < 0x80 then some lead.toNat
  else
    (rest.head?.bind (pair? lead)).or <|
      match rest with
      | second :: third :: more =>
        (triple? lead second third).or (more.head?.bind (quadruple? lead second third))
      | _ => none

/-- The glyph that a text with this first byte starts with. -/
def first (lead : UInt8) (rest : Text) : Glyph :=
  match code? lead rest with
  | some code => scalar code
  | none => stray lead

/-- The number of bytes of a glyph. -/
def width (g : Glyph) : Nat := g.bytes.length

end Glyph

namespace Text

/-- The glyphs of a text. The counter is the number of bytes that the last glyph still covers. -/
def glyphsFrom : Nat → Text → List Glyph
  | _, [] => []
  | covered + 1, _ :: rest => glyphsFrom covered rest
  | 0, b :: rest => Glyph.first b rest :: glyphsFrom ((Glyph.first b rest).width - 1) rest

/-- The text as a sequence of glyphs. -/
def glyphs (t : Text) : List Glyph := glyphsFrom 0 t

/-- The text with every occurrence of a name replaced by a value. The empty name occurs before every
glyph and at the end of the text. -/
def replaceAll (t name value : Text) : Text :=
  if name.isEmpty then value ++ t.glyphs.flatMap fun g => g.bytes ++ value
  else replaceFrom name value 0 t

/-- Fill up with blanks to a width counted in glyphs. -/
def padRight (width : Nat) (t : Text) : Text :=
  t ++ List.replicate (width - t.glyphs.length) Byte.space

end Text

end ColumnAssembler
