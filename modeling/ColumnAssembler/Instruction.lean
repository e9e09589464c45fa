import ColumnAssembler.EncodingTable
import ColumnAssembler.Expression
import ColumnAssembler.SourceLine
import ColumnAssembler.SymbolTable

/-!
# Instructions

In the operand of an instruction names are replaced by the literals of their values, in a branch by
the literals of their displacements. An operand that has no value yet leaves the
instruction pending with bytes reserved for it; it is resolved once all symbols are known.
Otherwise the instruction is encoded, or marked when its operand fits no mode or is out of reach.
-/

namespace ColumnAssembler

/-- An error that does not stop the assembly. -/
inductive Marker where
  /-- The target of a branch is out of reach. -/
  | badBranch
  /-- The mnemonic has no mode for the operand. -/
  | badAddressMode
  deriving DecidableEq, Repr

namespace Marker

/-- The number of a marker; zero stands for none. -/
def code : Marker → Nat
  | badBranch => 1
  | badAddressMode => 2

/-- The marker with the given number. -/
def ofCode? : Int → Option Marker
  | 1 => some badBranch
  | 2 => some badAddressMode
  | _ => none

/-- The wording of a marker. -/
def name : Marker → Text
  | badBranch => Text.ascii "bad branch"
  | badAddressMode => Text.ascii "bad address mode"

end Marker

/-- How far the encoding of an instruction has come. -/
inductive Encoding where
  /-- The operand has no value yet. -/
  | pending
  /-- The operand had no value when all symbols were known. -/
  | abandoned
  /-- The instruction cannot be encoded. -/
  | marked (marker : Marker)
  /-- The instruction has its mode, opcode and operand bytes. -/
  | complete (mode : Mode) (opcode : UInt8) (params : List UInt8)
  deriving DecidableEq, Repr

/-- An operand still has no value when all symbols are known. -/
structure UnresolvedOperand where
  /-- The operand with its names replaced. -/
  operand : Text
  /-- Why it has no value. -/
  cause : ExpressionError
  deriving DecidableEq, Repr

/-- The wording of the error for an unresolved operand. -/
def UnresolvedOperand.message (e : UnresolvedOperand) : Text :=
  Text.ascii "unresolved operand " ++ e.operand.cited ++ Text.ascii ": " ++ e.cause.message

/-- An instruction at its address. -/
structure Instruction where
  /-- The line it stands on. -/
  source : SourceLine
  /-- The address of its opcode. -/
  address : UInt16
  /-- The operand with the names known so far replaced. -/
  operand : Text
  /-- A name in the operand of a branch stood for a target out of reach. -/
  outOfReach : Bool
  /-- The state of its encoding. -/
  encoding : Encoding
  deriving DecidableEq, Repr

namespace Instruction

/-- The number of bytes of an opcode with a two-byte operand. -/
def maxSize : Nat := 3

/-- The opcodes of the mnemonic. -/
def modes (i : Instruction) : Encodings := EncodingTable.encodings i.source.mnemonic

/-- Whether the instruction is a branch. -/
def isRelative (i : Instruction) : Bool := EncodingTable.isRelative i.source.mnemonic

/-- The way from the instruction after a branch to the target. -/
def displacement (address target : UInt16) : Int := target.toNat - (address.toNat + 2)

/-- Whether a displacement fits in a signed byte. -/
def isReachable (d : Int) : Bool := -128 ≤ d && d ≤ 127

/-- A displacement as an operand value: a backward one is raised by 256. -/
def displacementValue (d : Int) : Int := if d < 0 then d + 256 else d

/-- The instruction with every occurrence of a name in its operand replaced by the literal of the
value, for a branch by the literal of the displacement. -/
def substitute (i : Instruction) (s : Symbol) : Instruction :=
  if i.isRelative then
    let d := displacement i.address s.value
    let value := Literal.format (Int64.ofInt (displacementValue d)) .hexadecimal
    { i with
      operand := i.operand.replaceAll s.name value
      outOfReach := i.outOfReach || !isReachable d }
  else { i with operand := i.operand.replaceAll s.name (Literal.ofAddress s.value.toNat) }

/-- Replace a name if it occurs in the operand. -/
def substituteKnown (i : Instruction) (s : Symbol) : Instruction :=
  if s.name.occursIn i.operand then i.substitute s else i

/-- The value of the operand, nothing when it has none to evaluate. -/
def operandValue (i : Instruction) : Except ExpressionError (Option Int64) :=
  if i.modes.hasValue i.operand then
    match Expression.evaluate i.operand with
    | .ok value => .ok (some value)
    | .error cause => .error cause
  else .ok none

/-- The width of an operand value that may be missing. -/
def widthOf : Option Int64 → Width
  | some value => Width.of value
  | none => .noOperand

/-- The bytes of an operand value, low byte first. -/
def params : Option Int64 → List UInt8
  | none => []
  | some value =>
    if Width.of value = .word then [UInt8.ofInt value.toInt, UInt8.ofInt (value.toInt / 0x100)]
    else [UInt8.ofInt value.toInt]

/-- The encoding for the value of the operand. -/
def encodingOf (i : Instruction) (value : Option Int64) : Encoding :=
  if i.isRelative && (i.outOfReach || widthOf value == .word) then .marked .badBranch
  else
    match i.modes.infer i.operand (widthOf value) with
    | none => .marked .badAddressMode
    | some mode => .complete mode ((i.modes.opcode? mode).getD 0) (params value)

/-- The instruction of a source line before its operand is looked at. -/
def start (source : SourceLine) (address : UInt16) : Instruction :=
  ⟨source, address, source.operand, false, .pending⟩

/-- Encode the instruction, or leave it pending when its operand has no value. -/
def encodeOrDefer (i : Instruction) : Instruction :=
  match i.operandValue with
  | .ok value => { i with encoding := i.encodingOf value }
  | .error _ => { i with encoding := .pending }

/-- The instruction of a source line at an address, with all names known so far replaced, longer
ones first. There is none when the mnemonic is not in the encoding table. -/
def create? (source : SourceLine) (address : UInt16) (table : SymbolTable) : Option Instruction :=
  if (EncodingTable.lookup source.mnemonic).isNone then none
  else some (table.byLength.foldl substituteKnown (start source address)).encodeOrDefer

/-- The instruction with the longest known name in its operand replaced. -/
def substituteLongest (i : Instruction) (table : SymbolTable) : Instruction :=
  match table.longestMatch? i.operand with
  | some s => i.substitute s
  | none => i

/-- Whether the operand had no value when the instruction was read. -/
def isPending (i : Instruction) : Bool := i.encoding == .pending

/-- Whether the mode and the operand bytes have been looked for. -/
def isEncoded (i : Instruction) : Bool :=
  match i.encoding with
  | .pending | .abandoned => false
  | .marked _ | .complete .. => true

/-- Encode a pending instruction with the final symbols. One name is replaced, the longest found.
An operand that still has no value is an error, and the instruction is abandoned. -/
def resolve (i : Instruction) (table : SymbolTable) : Instruction × Option UnresolvedOperand :=
  if i.isPending then
    let replaced := i.substituteLongest table
    match replaced.operandValue with
    | .ok value => ({ replaced with encoding := replaced.encodingOf value }, none)
    | .error cause =>
      ({ replaced with encoding := .abandoned }, some ⟨replaced.operand, cause⟩)
  else (i, none)

/-- The error marker. -/
def marker? (i : Instruction) : Option Marker :=
  match i.encoding with
  | .marked marker => some marker
  | _ => none

/-- The mode, once it is known. -/
def mode? (i : Instruction) : Option Mode :=
  match i.encoding with
  | .complete mode _ _ => some mode
  | _ => none

/-- The opcode, zero until it is known. -/
def opcode (i : Instruction) : UInt8 :=
  match i.encoding with
  | .complete _ opcode _ => opcode
  | _ => 0

/-- The bytes that the instruction emits. -/
def bytes (i : Instruction) : List UInt8 :=
  match i.encoding with
  | .complete _ opcode params => opcode :: params
  | _ => []

/-- The number of bytes reserved for a pending instruction: none when its operand fits no mode, two
for a branch and three otherwise. -/
def reservedLength (i : Instruction) : Nat :=
  match i.modes.infer i.operand .unresolved with
  | none => 0
  | some .relative => 2
  | some _ => maxSize

/-- The number of bytes that the instruction takes. -/
def length (i : Instruction) : Nat :=
  match i.encoding with
  | .pending => i.reservedLength
  | .abandoned | .marked _ => 0
  | .complete _ _ params => 1 + params.length

end Instruction

end ColumnAssembler
