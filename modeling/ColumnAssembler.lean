import ColumnAssembler.AddressingMode
import ColumnAssembler.Assembly
import ColumnAssembler.CommandLine
import ColumnAssembler.Diagnostic
import ColumnAssembler.EncodingTable
import ColumnAssembler.Expression
import ColumnAssembler.Fault
import ColumnAssembler.FileTree
import ColumnAssembler.Instruction
import ColumnAssembler.Job
import ColumnAssembler.Journal
import ColumnAssembler.LineReading
import ColumnAssembler.Listing
import ColumnAssembler.Literal
import ColumnAssembler.Main
import ColumnAssembler.Numeral
import ColumnAssembler.ObjectFile
import ColumnAssembler.Opcode
import ColumnAssembler.PathName
import ColumnAssembler.PathPattern
import ColumnAssembler.Program
import ColumnAssembler.Proofs.FirstPass
import ColumnAssembler.Proofs.InstructionStages
import ColumnAssembler.Proofs.OpcodeTable
import ColumnAssembler.Proofs.LineStep
import ColumnAssembler.Record
import ColumnAssembler.Resolution
import ColumnAssembler.Scan
import ColumnAssembler.Session
import ColumnAssembler.SourceFile
import ColumnAssembler.SourceLine
import ColumnAssembler.StableSort
import ColumnAssembler.SymbolTable
import ColumnAssembler.Text
import ColumnAssembler.Text.Blank
import ColumnAssembler.Text.Glyph
import ColumnAssembler.Text.Printable
import ColumnAssembler.Text.Quoted
import ColumnAssembler.Text.Search
import ColumnAssembler.Text.UpperCase
import ColumnAssembler.Verification
import ColumnAssembler.Proofs.SecondPass
import ColumnAssembler.Proofs.ChecksumCancellation
import ColumnAssembler.Proofs.MemoryLayout
import ColumnAssembler.Proofs.AddressLiteral
import ColumnAssembler.Proofs.Replacement
import ColumnAssembler.Proofs.OperandForm
import ColumnAssembler.Proofs.SymbolNames
import ColumnAssembler.Proofs.Reservation
import ColumnAssembler.Proofs.SymbolReference
import ColumnAssembler.Proofs.ObjectText
import ColumnAssembler.Proofs.LineEffect
import ColumnAssembler.Proofs.ObjectRoundTrip
import ColumnAssembler.Proofs.FirstPassState
import ColumnAssembler.Proofs.ExactDiagnostics
import ColumnAssembler.Proofs.FirstDefinition
import ColumnAssembler.Proofs.DefinitionOrder
import ColumnAssembler.Proofs.Renumbering
import ColumnAssembler.Proofs.AbortedRun
import ColumnAssembler.Proofs.InertLines
import ColumnAssembler.Proofs.ObjectFileGate
import ColumnAssembler.Proofs.EncodingSoundness
import ColumnAssembler.Proofs.BranchTarget
import ColumnAssembler.Proofs.AddressSum
import ColumnAssembler.Proofs.BranchOffset
import ColumnAssembler.Proofs.SourceText
import ColumnAssembler.Proofs.ListingLines
import ColumnAssembler.Proofs.OperatorChain
import ColumnAssembler.Proofs.OperandDecoration
import ColumnAssembler.Proofs.LiteralRoundTrip
import ColumnAssembler.Proofs.WhiteSpace
import ColumnAssembler.Proofs.ObjectGrammar
import ColumnAssembler.Proofs.ColumnCuts
import ColumnAssembler.Proofs.FixedColumns
import ColumnAssembler.Proofs.OperandFaults
import ColumnAssembler.Proofs.FlatInstruction
import ColumnAssembler.Proofs.CurrentAddress
import ColumnAssembler.Proofs.SymbolViews
import ColumnAssembler.Proofs.SymbolIndex
import ColumnAssembler.Proofs.OptimisticWidth
import ColumnAssembler.Proofs.ChainDivision
