import ColumnAssembler.AddressingMode

/-!
# Opcodes

The 256 opcodes of the processor by their byte. The documented ones are the instructions that
programs are written in. The processor runs the others as well, some of them under the name of a
documented instruction, so every opcode says which it is. The opcodes that stop the processor are
counted with the documented ones.
-/

namespace ColumnAssembler

/-- What the processor does for one opcode byte. -/
structure Opcode where
  /-- The name of the instruction in small letters. -/
  name : Text
  /-- The mode in which it takes its operand. -/
  mode : Mode
  /-- Whether the opcode is missing from the processor's documentation. -/
  unofficial : Bool
  deriving DecidableEq, Repr

namespace Opcode

/-- A documented opcode. -/
def documented (name : String) (mode : Mode) : Option Opcode :=
  some ⟨Text.ascii name, mode, false⟩

/-- An opcode without documentation. -/
def undocumented (name : String) (mode : Mode) : Option Opcode :=
  some ⟨Text.ascii name, mode, true⟩

/-- The opcodes in the order of their bytes. A byte may have none. -/
def all : List (Option Opcode) := [
  -- 0x00
  documented "brk" .implied, documented "ora" .indirectX, documented "kil" .implied,
  undocumented "slo" .indirectX, undocumented "nop" .zeroPage, documented "ora" .zeroPage,
  documented "asl" .zeroPage, undocumented "slo" .zeroPage, documented "php" .implied,
  documented "ora" .immediate, documented "asl" .accumulator, undocumented "anc" .immediate,
  undocumented "nop" .absolute, documented "ora" .absolute, documented "asl" .absolute,
  undocumented "slo" .absolute,
  -- 0x10
  documented "bpl" .relative, documented "ora" .indirectY, documented "kil" .implied,
  undocumented "slo" .indirectY, undocumented "nop" .zeroPageX, documented "ora" .zeroPageX,
  documented "asl" .zeroPageX, undocumented "slo" .zeroPageX, documented "clc" .implied,
  documented "ora" .absoluteY, undocumented "nop" .implied, undocumented "slo" .absoluteY,
  undocumented "nop" .absoluteX, documented "ora" .absoluteX, documented "asl" .absoluteX,
  undocumented "slo" .absoluteX,
  -- 0x20
  documented "jsr" .absolute, documented "and" .indirectX, documented "kil" .implied,
  undocumented "rla" .indirectX, documented "bit" .zeroPage, documented "and" .zeroPage,
  documented "rol" .zeroPage, undocumented "rla" .zeroPage, documented "plp" .implied,
  documented "and" .immediate, documented "rol" .accumulator, undocumented "anc" .immediate,
  documented "bit" .absolute, documented "and" .absolute, documented "rol" .absolute,
  undocumented "rla" .absolute,
  -- 0x30
  documented "bmi" .relative, documented "and" .indirectY, documented "kil" .implied,
  undocumented "rla" .indirectY, undocumented "nop" .zeroPageX, documented "and" .zeroPageX,
  documented "rol" .zeroPageX, undocumented "rla" .zeroPageX, documented "sec" .implied,
  documented "and" .absoluteY, undocumented "nop" .implied, undocumented "rla" .absoluteY,
  undocumented "nop" .absoluteX, documented "and" .absoluteX, documented "rol" .absoluteX,
  undocumented "rla" .absoluteX,
  -- 0x40
  documented "rti" .implied, documented "eor" .indirectX, documented "kil" .implied,
  undocumented "sre" .indirectX, undocumented "nop" .zeroPage, documented "eor" .zeroPage,
  documented "lsr" .zeroPage, undocumented "sre" .zeroPage, documented "pha" .implied,
  documented "eor" .immediate, documented "lsr" .accumulator, undocumented "alr" .immediate,
  documented "jmp" .absolute, documented "eor" .absolute, documented "lsr" .absolute,
  undocumented "sre" .absolute,
  -- 0x50
  documented "bvc" .relative, documented "eor" .indirectY, documented "kil" .implied,
  undocumented "sre" .indirectY, undocumented "nop" .zeroPageX, documented "eor" .zeroPageX,
  documented "lsr" .zeroPageX, undocumented "sre" .zeroPageX, documented "cli" .implied,
  documented "eor" .absoluteY, undocumented "nop" .implied, undocumented "sre" .absoluteY,
  undocumented "nop" .absoluteX, documented "eor" .absoluteX, documented "lsr" .absoluteX,
  undocumented "sre" .absoluteX,
  -- 0x60
  documented "rts" .implied, documented "adc" .indirectX, documented "kil" .implied,
  undocumented "rra" .indirectX, undocumented "nop" .zeroPage, documented "adc" .zeroPage,
  documented "ror" .zeroPage, undocumented "rra" .zeroPage, documented "pla" .implied,
  documented "adc" .immediate, documented "ror" .accumulator, undocumented "arr" .immediate,
  documented "jmp" .indirect, documented "adc" .absolute, documented "ror" .absolute,
  undocumented "rra" .absolute,
  -- 0x70
  documented "bvs" .relative, documented "adc" .indirectY, documented "kil" .implied,
  undocumented "rra" .indirectY, undocumented "nop" .zeroPageX, documented "adc" .zeroPageX,
  documented "ror" .zeroPageX, undocumented "rra" .zeroPageX, documented "sei" .implied,
  documented "adc" .absoluteY, undocumented "nop" .implied, undocumented "rra" .absoluteY,
  undocumented "nop" .absoluteX, documented "adc" .absoluteX, documented "ror" .absoluteX,
  undocumented "rra" .absoluteX,
  -- 0x80
  undocumented "nop" .immediate, documented "sta" .indirectX, undocumented "nop" .immediate,
  undocumented "sax" .indirectX, documented "sty" .zeroPage, documented "sta" .zeroPage,
  documented "stx" .zeroPage, undocumented "sax" .zeroPage, documented "dey" .implied,
  undocumented "nop" .immediate, documented "txa" .implied, undocumented "xaa" .immediate,
  documented "sty" .absolute, documented "sta" .absolute, documented "stx" .absolute,
  undocumented "sax" .absolute,
  -- 0x90
  documented "bcc" .relative, documented "sta" .indirectY, documented "kil" .implied,
  undocumented "ahx" .indirectY, documented "sty" .zeroPageX, documented "sta" .zeroPageX,
  documented "stx" .zeroPageY, undocumented "sax" .zeroPageY, documented "tya" .implied,
  documented "sta" .absoluteY, documented "txs" .implied, undocumented "tas" .absoluteY,
  undocumented "shy" .absoluteX, documented "sta" .absoluteX, undocumented "shx" .absoluteY,
  undocumented "ahx" .absoluteY,
  -- 0xA0
  documented "ldy" .immediate, documented "lda" .indirectX, documented "ldx" .immediate,
  undocumented "lax" .indirectX, documented "ldy" .zeroPage, documented "lda" .zeroPage,
  documented "ldx" .zeroPage, undocumented "lax" .zeroPage, documented "tay" .implied,
  documented "lda" .immediate, documented "tax" .implied, undocumented "lax" .immediate,
  documented "ldy" .absolute, documented "lda" .absolute, documented "ldx" .absolute,
  undocumented "lax" .absolute,
  -- 0xB0
  documented "bcs" .relative, documented "lda" .indirectY, documented "kil" .implied,
  undocumented "lax" .indirectY, documented "ldy" .zeroPageX, documented "lda" .zeroPageX,
  documented "ldx" .zeroPageY, undocumented "lax" .zeroPageY, documented "clv" .implied,
  documented "lda" .absoluteY, documented "tsx" .implied, undocumented "las" .absoluteY,
  documented "ldy" .absoluteX, documented "lda" .absoluteX, documented "ldx" .absoluteY,
  undocumented "lax" .absoluteY,
  -- 0xC0
  documented "cpy" .immediate, documented "cmp" .indirectX, undocumented "nop" .immediate,
  undocumented "dcp" .indirectX, documented "cpy" .zeroPage, documented "cmp" .zeroPage,
  documented "dec" .zeroPage, undocumented "dcp" .zeroPage, documented "iny" .implied,
  documented "cmp" .immediate, documented "dex" .implied, undocumented "axs" .immediate,
  documented "cpy" .absolute, documented "cmp" .absolute, documented "dec" .absolute,
  undocumented "dcp" .absolute,
  -- 0xD0
  documented "bne" .relative, documented "cmp" .indirectY, documented "kil" .implied,
  undocumented "dcp" .indirectY, undocumented "nop" .zeroPageX, documented "cmp" .zeroPageX,
  documented "dec" .zeroPageX, undocumented "dcp" .zeroPageX, documented "cld" .implied,
  documented "cmp" .absoluteY, undocumented "nop" .implied, undocumented "dcp" .absoluteY,
  undocumented "nop" .absoluteX, documented "cmp" .absoluteX, documented "dec" .absoluteX,
  undocumented "dcp" .absoluteX,
  -- 0xE0
  documented "cpx" .immediate, documented "sbc" .indirectX, undocumented "nop" .immediate,
  undocumented "isc" .indirectX, documented "cpx" .zeroPage, documented "sbc" .zeroPage,
  documented "inc" .zeroPage, undocumented "isc" .zeroPage, documented "inx" .implied,
  documented "sbc" .immediate, documented "nop" .implied, undocumented "sbc" .immediate,
  documented "cpx" .absolute, documented "sbc" .absolute, documented "inc" .absolute,
  undocumented "isc" .absolute,
  -- 0xF0
  documented "beq" .relative, documented "sbc" .indirectY, documented "kil" .implied,
  undocumented "isc" .indirectY, undocumented "nop" .zeroPageX, documented "sbc" .zeroPageX,
  documented "inc" .zeroPageX, undocumented "isc" .zeroPageX, documented "sed" .implied,
  documented "sbc" .absoluteY, undocumented "nop" .implied, undocumented "isc" .absoluteY,
  undocumented "nop" .absoluteX, documented "sbc" .absoluteX, documented "inc" .absoluteX,
  undocumented "isc" .absoluteX]

end Opcode

end ColumnAssembler
