import ColumnAssembler.Text

/-!
# Numerals

Numbers written in a base between 2 and 36 with upper case digits, without leading zeros, and read
back in either case up to a limit. A reader looks at one digit after the other and stops at the
first that is no digit of the base or that takes the number over the limit.
-/

namespace ColumnAssembler.Numeral

/-- The byte of a digit: decimal digits, then capital letters. -/
def digitByte (digit : Nat) : UInt8 :=
  if digit < 10 then (0x30 + digit).toUInt8 else (0x41 + (digit - 10)).toUInt8

/-- The value of a digit of any base up to 36. -/
def digitValue? (b : UInt8) : Option Nat :=
  if 0x30 ≤ b && b ≤ 0x39 then some (b.toNat - 0x30)
  else if 0x41 ≤ b && b ≤ 0x5A then some (b.toNat - 0x41 + 10)
  else if 0x61 ≤ b && b ≤ 0x7A then some (b.toNat - 0x61 + 10)
  else none

/-- The digits of a number, lowest first, at most as many as the first argument says. -/
def lowDigits (base : Nat) : Nat → Nat → List Nat
  | 0, _ => []
  | room + 1, n => if n < base then [n] else n % base :: lowDigits base room (n / base)

/-- The digits of a number, highest first. A number has fewer digits than its successor counts. -/
def digits (base n : Nat) : List Nat := (lowDigits base (n + 1) n).reverse

/-- The numeral of a number. -/
def render (base n : Nat) : Text := (digits base n).map digitByte

/-- The numeral of an integer, with a minus in front of a negative one. -/
def renderInt (base : Nat) (z : Int) : Text :=
  if z < 0 then Byte.minus :: render base z.natAbs else render base z.natAbs

/-- The decimal numeral of a number. -/
def decimal (n : Nat) : Text := render 10 n

/-- The decimal numeral of an integer. -/
def decimalInt (z : Int) : Text := renderInt 10 z

/-- The hexadecimal numeral of a number. -/
def hex (n : Nat) : Text := render 16 n

/-- The hexadecimal numeral of a number with zeros in front up to the given width. -/
def hexPadded (width n : Nat) : Text := Text.padLeft Byte.zero width (hex n)

/-- Two hexadecimal digits for a byte. -/
def hexByte (b : UInt8) : Text := hexPadded 2 b.toNat

/-- Four hexadecimal digits for an address. -/
def hexWord (w : UInt16) : Text := hexPadded 4 w.toNat

/-- The name of a number that an enumeration has no name for. -/
def unnamed (family : String) (code : Int) : Text :=
  Text.ascii family ++ [Byte.openParen] ++ decimalInt code ++ [Byte.closeParen]

/-- Why a numeral cannot be read. -/
inductive ReadError where
  /-- There is no digit, or something that is no digit of the base. -/
  | malformed
  /-- The number is over the limit. -/
  | tooLarge
  deriving DecidableEq, Repr

/-- Read on from the number read so far. -/
def readFrom (base limit : Nat) : Nat → Text → Except ReadError Nat
  | value, [] => .ok value
  | value, b :: rest =>
    match digitValue? b with
    | none => .error .malformed
    | some digit =>
      if base ≤ digit then .error .malformed
      else if limit < value * base + digit then .error .tooLarge
      else readFrom base limit (value * base + digit) rest

/-- Read a numeral of at least one digit whose number is at most the limit. -/
def read (base limit : Nat) (t : Text) : Except ReadError Nat :=
  if t.isEmpty then .error .malformed else readFrom base limit 0 t

end ColumnAssembler.Numeral
