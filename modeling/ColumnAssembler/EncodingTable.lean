import ColumnAssembler.Opcode
import ColumnAssembler.Text.UpperCase

/-!
# Encoding table

The official instructions of the processor: for every mnemonic the modes it has and their opcodes,
and the mnemonics that are branches. A table is filled from a list of opcodes, one byte after the
other. The table of the processor is written out as well, for it is looked up at every line.
-/

namespace ColumnAssembler

/-- Mnemonics with their opcodes by mode, and the mnemonics among them that are branches. -/
structure EncodingTable where
  /-- The mnemonics in capitals, each with the modes it has. -/
  instructions : List (Text × Encodings)
  /-- The mnemonics with the relative mode. -/
  relative : List Text
  deriving DecidableEq, Repr

namespace EncodingTable

/-- The table without mnemonics. -/
def empty : EncodingTable := ⟨[], []⟩

/-- The modes of a mnemonic, none for a text that is no mnemonic. -/
def modesOf (t : EncodingTable) (mnemonic : Text) : Encodings :=
  (t.instructions.lookup mnemonic).getD []

/-- Mnemonics with one more opcode for the given one, which comes last if it is new. -/
def addCode (mnemonic : Text) (code : Mode × UInt8) :
    List (Text × Encodings) → List (Text × Encodings)
  | [] => [(mnemonic, [code])]
  | entry :: rest =>
    if mnemonic == entry.1 then (entry.1, entry.2 ++ [code]) :: rest
    else entry :: addCode mnemonic code rest

/-- The table with an opcode of a mnemonic. The first opcode of a mode is kept. -/
def add (t : EncodingTable) (mnemonic : Text) (mode : Mode) (opcode : UInt8) : EncodingTable :=
  if (t.modesOf mnemonic).supports mode then t
  else
    ⟨addCode mnemonic (mode, opcode) t.instructions,
      if mode = .relative then t.relative.insert mnemonic else t.relative⟩

/-- The table after one byte of a list of opcodes. Bytes without an opcode and unofficial opcodes
are left out. -/
def enter (t : EncodingTable) (slot : Option Opcode × Nat) : EncodingTable :=
  match slot.1 with
  | none => t
  | some op => if op.unofficial then t else t.add op.name.upper op.mode (UInt8.ofNat slot.2)

/-- The table of a list of opcodes, which stand at their bytes. -/
def ofOpcodes (opcodes : List (Option Opcode)) : EncodingTable :=
  opcodes.zipIdx.foldl enter empty

/-- Mnemonics with their opcodes by mode. -/
def entries : List (Text × Encodings) := [
  (Text.ascii "BRK", [(.implied, 0x00)]),
  (Text.ascii "ORA", [(.indirectX, 0x01), (.zeroPage, 0x05), (.immediate, 0x09), (.absolute, 0x0D),
    (.indirectY, 0x11), (.zeroPageX, 0x15), (.absoluteY, 0x19), (.absoluteX, 0x1D)]),
  (Text.ascii "KIL", [(.implied, 0x02)]),
  (Text.ascii "ASL", [(.zeroPage, 0x06), (.accumulator, 0x0A), (.absolute, 0x0E),
    (.zeroPageX, 0x16), (.absoluteX, 0x1E)]),
  (Text.ascii "PHP", [(.implied, 0x08)]),
  (Text.ascii "BPL", [(.relative, 0x10)]),
  (Text.ascii "CLC", [(.implied, 0x18)]),
  (Text.ascii "JSR", [(.absolute, 0x20)]),
  (Text.ascii "AND", [(.indirectX, 0x21), (.zeroPage, 0x25), (.immediate, 0x29), (.absolute, 0x2D),
    (.indirectY, 0x31), (.zeroPageX, 0x35), (.absoluteY, 0x39), (.absoluteX, 0x3D)]),
  (Text.ascii "BIT", [(.zeroPage, 0x24), (.absolute, 0x2C)]),
  (Text.ascii "ROL", [(.zeroPage, 0x26), (.accumulator, 0x2A), (.absolute, 0x2E),
    (.zeroPageX, 0x36), (.absoluteX, 0x3E)]),
  (Text.ascii "PLP", [(.implied, 0x28)]),
  (Text.ascii "BMI", [(.relative, 0x30)]),
  (Text.ascii "SEC", [(.implied, 0x38)]),
  (Text.ascii "RTI", [(.implied, 0x40)]),
  (Text.ascii "EOR", [(.indirectX, 0x41), (.zeroPage, 0x45), (.immediate, 0x49), (.absolute, 0x4D),
    (.indirectY, 0x51), (.zeroPageX, 0x55), (.absoluteY, 0x59), (.absoluteX, 0x5D)]),
  (Text.ascii "LSR", [(.zeroPage, 0x46), (.accumulator, 0x4A), (.absolute, 0x4E),
    (.zeroPageX, 0x56), (.absoluteX, 0x5E)]),
  (Text.ascii "PHA", [(.implied, 0x48)]),
  (Text.ascii "JMP", [(.absolute, 0x4C), (.indirect, 0x6C)]),
  (Text.ascii "BVC", [(.relative, 0x50)]),
  (Text.ascii "CLI", [(.implied, 0x58)]),
  (Text.ascii "RTS", [(.implied, 0x60)]),
  (Text.ascii "ADC", [(.indirectX, 0x61), (.zeroPage, 0x65), (.immediate, 0x69), (.absolute, 0x6D),
    (.indirectY, 0x71), (.zeroPageX, 0x75), (.absoluteY, 0x79), (.absoluteX, 0x7D)]),
  (Text.ascii "ROR", [(.zeroPage, 0x66), (.accumulator, 0x6A), (.absolute, 0x6E),
    (.zeroPageX, 0x76), (.absoluteX, 0x7E)]),
  (Text.ascii "PLA", [(.implied, 0x68)]),
  (Text.ascii "BVS", [(.relative, 0x70)]),
  (Text.ascii "SEI", [(.implied, 0x78)]),
  (Text.ascii "STA", [(.indirectX, 0x81), (.zeroPage, 0x85), (.absolute, 0x8D), (.indirectY, 0x91),
    (.zeroPageX, 0x95), (.absoluteY, 0x99), (.absoluteX, 0x9D)]),
  (Text.ascii "STY", [(.zeroPage, 0x84), (.absolute, 0x8C), (.zeroPageX, 0x94)]),
  (Text.ascii "STX", [(.zeroPage, 0x86), (.absolute, 0x8E), (.zeroPageY, 0x96)]),
  (Text.ascii "DEY", [(.implied, 0x88)]),
  (Text.ascii "TXA", [(.implied, 0x8A)]),
  (Text.ascii "BCC", [(.relative, 0x90)]),
  (Text.ascii "TYA", [(.implied, 0x98)]),
  (Text.ascii "TXS", [(.implied, 0x9A)]),
  (Text.ascii "LDY", [(.immediate, 0xA0), (.zeroPage, 0xA4), (.absolute, 0xAC), (.zeroPageX, 0xB4),
    (.absoluteX, 0xBC)]),
  (Text.ascii "LDA", [(.indirectX, 0xA1), (.zeroPage, 0xA5), (.immediate, 0xA9), (.absolute, 0xAD),
    (.indirectY, 0xB1), (.zeroPageX, 0xB5), (.absoluteY, 0xB9), (.absoluteX, 0xBD)]),
  (Text.ascii "LDX", [(.immediate, 0xA2), (.zeroPage, 0xA6), (.absolute, 0xAE), (.zeroPageY, 0xB6),
    (.absoluteY, 0xBE)]),
  (Text.ascii "TAY", [(.implied, 0xA8)]),
  (Text.ascii "TAX", [(.implied, 0xAA)]),
  (Text.ascii "BCS", [(.relative, 0xB0)]),
  (Text.ascii "CLV", [(.implied, 0xB8)]),
  (Text.ascii "TSX", [(.implied, 0xBA)]),
  (Text.ascii "CPY", [(.immediate, 0xC0), (.zeroPage, 0xC4), (.absolute, 0xCC)]),
  (Text.ascii "CMP", [(.indirectX, 0xC1), (.zeroPage, 0xC5), (.immediate, 0xC9), (.absolute, 0xCD),
    (.indirectY, 0xD1), (.zeroPageX, 0xD5), (.absoluteY, 0xD9), (.absoluteX, 0xDD)]),
  (Text.ascii "DEC", [(.zeroPage, 0xC6), (.absolute, 0xCE), (.zeroPageX, 0xD6),
    (.absoluteX, 0xDE)]),
  (Text.ascii "INY", [(.implied, 0xC8)]),
  (Text.ascii "DEX", [(.implied, 0xCA)]),
  (Text.ascii "BNE", [(.relative, 0xD0)]),
  (Text.ascii "CLD", [(.implied, 0xD8)]),
  (Text.ascii "CPX", [(.immediate, 0xE0), (.zeroPage, 0xE4), (.absolute, 0xEC)]),
  (Text.ascii "SBC", [(.indirectX, 0xE1), (.zeroPage, 0xE5), (.immediate, 0xE9), (.absolute, 0xED),
    (.indirectY, 0xF1), (.zeroPageX, 0xF5), (.absoluteY, 0xF9), (.absoluteX, 0xFD)]),
  (Text.ascii "INC", [(.zeroPage, 0xE6), (.absolute, 0xEE), (.zeroPageX, 0xF6),
    (.absoluteX, 0xFE)]),
  (Text.ascii "INX", [(.implied, 0xE8)]),
  (Text.ascii "NOP", [(.implied, 0xEA)]),
  (Text.ascii "BEQ", [(.relative, 0xF0)]),
  (Text.ascii "SED", [(.implied, 0xF8)])]

/-- The branches, the one with the greatest opcode first. -/
def branches : List Text := [
  Text.ascii "BEQ", Text.ascii "BNE", Text.ascii "BCS", Text.ascii "BCC", Text.ascii "BVS",
  Text.ascii "BVC", Text.ascii "BMI", Text.ascii "BPL"]

/-- The opcodes of a mnemonic in capitals. -/
def lookup (mnemonic : Text) : Option Encodings := entries.lookup mnemonic

/-- The opcodes of a mnemonic, none for a text that is no mnemonic. -/
def encodings (mnemonic : Text) : Encodings := (lookup mnemonic).getD []

/-- Whether the mnemonic is a branch. -/
def isRelative (mnemonic : Text) : Bool := branches.contains mnemonic

/-- The number of mnemonics. -/
def size : Nat := entries.length

end EncodingTable

end ColumnAssembler
