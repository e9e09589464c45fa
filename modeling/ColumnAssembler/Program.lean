import ColumnAssembler.Diagnostic

/-!
# Programs

The result of an assembly: the records of all lines read, the positions of the memory records among
them, the symbols and the diagnostics. The memory records are read at their positions, and a program
carries the proof that these are in step with its records, so whatever adds a record or changes one
has to keep them so. A program that was stopped by a fault is not complete, and only a complete
program without errors can be written to an object file.
-/

namespace ColumnAssembler

/-- An assembled program, perhaps only in part. -/
structure Program where
  /-- The start address. -/
  origin : UInt16
  /-- The records of the lines, in order. -/
  records : Array Record
  /-- The positions of the memory records among the records, in order. -/
  memoryIndices : Array Nat
  /-- The defined symbols. -/
  symbols : SymbolTable
  /-- The errors found, in order. -/
  diagnostics : Array Diagnostic
  /-- All lines were assembled. -/
  complete : Bool
  /-- The positions are those of the memory records. -/
  inStep : memoryIndices.toList = Record.memoryIndices records.toList
  deriving DecidableEq, Repr

namespace Program

/-- The program before the first line. -/
def empty (origin : UInt16) : Program := ⟨origin, #[], #[], .empty, #[], false, rfl⟩

/-- Add a directive. -/
def addDirective (p : Program) (d : Directive) : Program :=
  { p with
    records := p.records.push (.directive d)
    inStep := by
      rw [Array.toList_push, Record.memoryIndices_concat, p.inStep]
      exact (List.append_nil _).symm }

/-- Add a memory record and its position. -/
def addMemory (p : Program) (m : Memory) : Program :=
  { p with
    records := p.records.push (.memory m)
    memoryIndices := p.memoryIndices.push p.records.size
    inStep := by
      rw [Array.toList_push, Array.toList_push, Record.memoryIndices_concat, p.inStep,
        Array.length_toList]
      rfl }

/-- Put other records in place of the records, with the memory records at the same positions. -/
def withRecords (p : Program) (records : Array Record)
    (h : Record.memoryIndices records.toList = Record.memoryIndices p.records.toList) : Program :=
  { p with
    records := records
    inStep := p.inStep.trans h.symm }

/-- The memory records in order, read at their positions. -/
def memory (p : Program) : List Memory :=
  p.memoryIndices.toList.filterMap fun k => p.records[k]?.bind Record.memory?

/-- The records read at the positions are the memory records among all records. -/
theorem memory_eq (p : Program) : p.memory = Record.memoryOf p.records.toList := by
  rw [memory, p.inStep, ← Record.filterMap_memoryIndices]
  simp only [Array.getElem?_toList]

/-- A directive is no memory record. -/
theorem memory_addDirective (p : Program) (d : Directive) :
    (p.addDirective d).memory = p.memory := by
  rw [memory_eq, memory_eq, addDirective, Array.toList_push, Record.memoryOf_concat_directive]

/-- A memory record is added behind all others. -/
theorem memory_addMemory (p : Program) (m : Memory) :
    (p.addMemory m).memory = p.memory ++ [m] := by
  rw [memory_eq, memory_eq, addMemory, Array.toList_push, Record.memoryOf_concat_memory]

/-- A memory record of the program is one of its records. -/
theorem mem_memory {p : Program} {m : Memory} :
    m ∈ p.memory ↔ Record.memory m ∈ p.records.toList := by
  rw [memory_eq, Record.memoryOf, List.mem_filterMap]
  constructor
  · rintro ⟨r, hr, hm⟩
    cases r with
    | directive d => exact absurd hm (Option.some_ne_none m).symm
    | memory m' => exact Option.some.inj hm ▸ hr
  · exact fun h => ⟨_, h, rfl⟩

/-- Programs with the same records have the same positions. -/
theorem memoryIndices_congr {p q : Program} (h : p.records = q.records) :
    p.memoryIndices = q.memoryIndices := by
  rw [← Array.toList_inj, p.inStep, q.inStep, h]

/-- Programs are equal when all but the positions are. -/
theorem eq_of_records {p q : Program} (horigin : p.origin = q.origin)
    (hrecords : p.records = q.records) (hsymbols : p.symbols = q.symbols)
    (hdiagnostics : p.diagnostics = q.diagnostics) (hcomplete : p.complete = q.complete) :
    p = q := by
  have hindices := memoryIndices_congr hrecords
  cases p
  cases q
  rw [mk.injEq]
  exact ⟨horigin, hrecords, hindices, hsymbols, hdiagnostics, hcomplete⟩

/-- There is a position for each memory record. -/
theorem size_memoryIndices (p : Program) : p.memoryIndices.size = p.memory.length := by
  rw [memory_eq, ← Array.length_toList, p.inStep, Record.length_memoryIndices]

/-- What each memory record contributes to a checksum. -/
def contributions (p : Program) : Array UInt8 := Memory.contributions p.memory

/-- The number of bytes of all records. -/
def size (p : Program) : Nat := p.records.foldl (fun total r => total + r.length) 0

/-- The number of errors. -/
def errorCount (p : Program) : Nat := p.diagnostics.size

/-- Whether an object file can be written: the program is complete, there was no error and no
record carries a marker. -/
def isEmittable (p : Program) : Bool :=
  p.complete && p.diagnostics.isEmpty && p.memory.all fun m => m.marker?.isNone

end Program

end ColumnAssembler
