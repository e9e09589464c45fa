import ColumnAssembler.Proofs.LineEffect
import ColumnAssembler.Proofs.SecondPass

/-!
# Line numbers do not matter

The number of a line is kept in its record and told in errors, and nothing is ever decided by it.
Nor does the first pass look at the directives it has recorded or at what it has told. So two states
that differ in these only (`Scan.Alike`) stay alike when both read the same line, each under its own
number, and both go on or fail with the same fault. `Scan.Alike.scanSource` says so for one line;
statements about two runs are derived from it.
-/

namespace ColumnAssembler

namespace SourceLine

/-- The line with its number changed. -/
def renumber (f : Int → Int) (source : SourceLine) : SourceLine :=
  { source with number := f source.number }

/-- Reading a line under another number changes the number only. -/
theorem parse_renumber (f : Int → Int) (number : Int) (line : Text) :
    parse (f number) line = (parse number line).map (renumber f) := by
  have hcolumns : ∀ text : Text,
      (ofNormalized number text).renumber f = ofNormalized (f number) text := fun _ => rfl
  unfold parse
  dsimp only
  split
  · rfl
  · rw [Except.map, hcolumns]

end SourceLine

namespace Instruction

variable (f : Int → Int)

/-- The instruction with the number of its line changed. -/
def renumber (i : Instruction) : Instruction := { i with source := i.source.renumber f }

/-- Names are replaced whatever the number. -/
theorem substitute_renumber (i : Instruction) (s : Symbol) :
    (i.renumber f).substitute s = (i.substitute s).renumber f := by
  have hbranch : (i.renumber f).isRelative = i.isRelative := rfl
  unfold substitute
  rw [hbranch]
  split <;> rfl

/-- Names that occur are replaced whatever the number. -/
theorem substituteKnown_renumber (i : Instruction) (s : Symbol) :
    (i.renumber f).substituteKnown s = (i.substituteKnown s).renumber f := by
  have hoperand : (i.renumber f).operand = i.operand := rfl
  unfold substituteKnown
  rw [hoperand]
  split
  · exact substitute_renumber f i s
  · rfl

/-- An instruction is encoded or deferred whatever the number. -/
theorem encodeOrDefer_renumber (i : Instruction) :
    (i.renumber f).encodeOrDefer = i.encodeOrDefer.renumber f := by
  have hvalue : (i.renumber f).operandValue = i.operandValue := rfl
  unfold encodeOrDefer
  rw [hvalue]
  split <;> rfl

/-- The instruction of a line under another number. -/
theorem create?_renumber (source : SourceLine) (address : UInt16) (table : SymbolTable) :
    create? (source.renumber f) address table =
      (create? source address table).map (renumber f) := by
  have hmnemonic : (source.renumber f).mnemonic = source.mnemonic := rfl
  have hstart : start (source.renumber f) address = (start source address).renumber f := rfl
  unfold create?
  rw [hmnemonic, hstart,
    List.foldl_hom (renumber f) fun i s => substituteKnown_renumber f i s, encodeOrDefer_renumber]
  split <;> rfl

/-- The longest name is replaced whatever the number. -/
theorem substituteLongest_renumber (i : Instruction) (table : SymbolTable) :
    (i.renumber f).substituteLongest table = (i.substituteLongest table).renumber f := by
  have hoperand : (i.renumber f).operand = i.operand := rfl
  unfold substituteLongest
  rw [hoperand]
  split
  · exact substitute_renumber f i _
  · rfl

/-- An instruction is settled whatever the number. -/
theorem settle_renumber (i : Instruction) :
    (i.renumber f).settle = (i.settle.1.renumber f, i.settle.2) := by
  have hvalue : (i.renumber f).operandValue = i.operandValue := rfl
  unfold settle
  rw [hvalue]
  split <;> rfl

/-- An instruction is resolved, or fails to be, whatever the number. -/
theorem resolve_renumber (i : Instruction) (table : SymbolTable) :
    (i.renumber f).resolve table = ((i.resolve table).1.renumber f, (i.resolve table).2) := by
  have hpending : (i.renumber f).isPending = i.isPending := rfl
  cases hp : i.isPending with
  | false => rw [resolve_of_not_pending table hp, resolve_of_not_pending table (hpending.trans hp)]
  | true =>
    rw [resolve_of_pending table hp, resolve_of_pending table (hpending.trans hp),
      substituteLongest_renumber, settle_renumber]

end Instruction

/-- The diagnostic with its line number changed. -/
def Diagnostic.renumber (f : Int → Int) (d : Diagnostic) : Diagnostic := { d with line := f d.line }

/-- The fatal error with its line number changed. -/
def FatalError.renumber (f : Int → Int) (e : FatalError) : FatalError := { e with line := f e.line }

namespace Memory

variable (f : Int → Int)

/-- The memory record with the number of its line changed. -/
def renumber : Memory → Memory
  | instruction i => instruction (i.renumber f)
  | checksum c => checksum { c with source := c.source.renumber f }

@[simp] theorem source_renumber (m : Memory) : (m.renumber f).source = m.source.renumber f := by
  cases m <;> rfl

@[simp] theorem address_renumber (m : Memory) : (m.renumber f).address = m.address := by
  cases m <;> rfl

@[simp] theorem length_renumber (m : Memory) : (m.renumber f).length = m.length := by
  cases m <;> rfl

@[simp] theorem marker?_renumber (m : Memory) : (m.renumber f).marker? = m.marker? := by
  cases m <;> rfl

@[simp] theorem isPending_renumber (m : Memory) : (m.renumber f).isPending = m.isPending := by
  cases m <;> rfl

/-- A record emits the same bytes whatever the number. -/
@[simp] theorem bytes_renumber (contributions : Array UInt8) (m : Memory) :
    (m.renumber f).bytes contributions = m.bytes contributions := by
  cases m <;> rfl

/-- Records contribute the same to checksums whatever their numbers. -/
theorem contributions_renumber (memory : List Memory) :
    contributions (memory.map (renumber f)) = contributions memory := by
  rw [contributions, contributions, List.foldl_map]
  simp only [contribution, bytes_renumber]

/-- The assembly field does not show the number. -/
theorem assembly_renumber (contributions : Array UInt8) (m : Memory) :
    (m.renumber f).assembly contributions = m.assembly contributions := by
  have hfiller : ∀ count, (m.renumber f).filler count = m.filler count := by
    intro count
    cases m <;> rfl
  unfold assembly
  rw [bytes_renumber, address_renumber]
  split
  · rfl
  · rw [hfiller]

/-- A record is resolved whatever the number. -/
theorem resolved_renumber (table : SymbolTable) (m : Memory) :
    (m.renumber f).resolved table = (m.resolved table).renumber f := by
  cases m with
  | instruction i =>
    rw [renumber, resolved, Instruction.resolve_renumber]
    rfl
  | checksum c => rfl

/-- A record fails to be resolved whatever the number. -/
theorem unresolved?_renumber (table : SymbolTable) (m : Memory) :
    (m.renumber f).unresolved? table = m.unresolved? table := by
  cases m with
  | instruction i =>
    rw [renumber, unresolved?, Instruction.resolve_renumber]
    rfl
  | checksum c => rfl

/-- The diagnostic of a record has its number. -/
theorem ofRecord?_renumber (m : Memory) :
    Diagnostic.ofRecord? (.memory (m.renumber f)) =
      (Diagnostic.ofRecord? (.memory m)).map (Diagnostic.renumber f) := by
  have hmarker : ∀ other : Memory, Record.marker? (.memory other) = other.marker? := fun _ => rfl
  have hnumber : (Record.memory (m.renumber f)).source.number = f m.source.number := by
    cases m <;> rfl
  rw [Diagnostic.ofRecord?, Diagnostic.ofRecord?, hmarker, hmarker, marker?_renumber, hnumber]
  cases m.marker? <;> rfl

end Memory

namespace Scan

/-- The second state is the first one with the numbers of its lines changed. Directives and what was
told may be others. -/
structure Alike (f : Int → Int) (s t : Scan) : Prop where
  /-- The start address is the same. -/
  origin : t.program.origin = s.program.origin
  /-- The symbols are the same. -/
  symbols : t.program.symbols = s.program.symbols
  /-- The diagnostics are the same but for their numbers. -/
  diagnostics : t.program.diagnostics.toList =
    s.program.diagnostics.toList.map (Diagnostic.renumber f)
  /-- The program is as complete. -/
  complete : t.program.complete = s.program.complete
  /-- The memory records are the same but for their numbers. -/
  memory : t.program.memory = s.program.memory.map (Memory.renumber f)
  /-- The counter is at the same address. -/
  address : t.address = s.address
  /-- Either both or none has taken a byte. -/
  emitted : t.emitted = s.emitted
  /-- The open segment starts at the same place. -/
  checksumStart : t.checksumStart = s.checksumStart

namespace Alike

variable {f : Int → Int} {s t : Scan}

/-- What is told may differ. -/
theorem log (h : Alike f s t) (level level' : LogLevel) (message message' : String)
    (fields fields' : List (String × LogValue)) :
    Alike f (s.log level message fields) (t.log level' message' fields') :=
  ⟨h.origin, h.symbols, h.diagnostics, h.complete, h.memory, h.address, h.emitted,
    h.checksumStart⟩

/-- A diagnostic is reported under its number. -/
theorem report (h : Alike f s t) (d : Diagnostic) :
    Alike f (s.report d) (t.report (d.renumber f)) where
  origin := h.origin
  symbols := h.symbols
  diagnostics := by
    rw [Scan.report, Scan.report, Array.toList_push, Array.toList_push, h.diagnostics,
      List.map_append]
    rfl
  complete := h.complete
  memory := h.memory
  address := h.address
  emitted := h.emitted
  checksumStart := h.checksumStart

/-- A name is defined, or found to be defined, in both. -/
theorem define (h : Alike f s t) (name : Text) (value : UInt16) (line : Int) :
    Alike f (s.define name value line) (t.define name value (f line)) := by
  unfold Scan.define
  rw [h.symbols]
  split
  · exact h.report ⟨.duplicateSymbol, line⟩
  · next table _ =>
    have hdefined : Alike f { s with program := { s.program with symbols := table } }
        { t with program := { t.program with symbols := table } } :=
      ⟨h.origin, rfl, h.diagnostics, h.complete, h.memory, h.address, h.emitted,
        h.checksumStart⟩
    exact hdefined.log _ _ _ _ _ _

/-- The label of a line is defined in both. -/
theorem defineLabel (h : Alike f s t) (source : SourceLine) (value : UInt16) :
    Alike f (s.defineLabel source value) (t.defineLabel (source.renumber f) value) := by
  have hlabel : (source.renumber f).label = source.label := rfl
  unfold Scan.defineLabel
  rw [hlabel]
  split
  · exact h
  · exact h.define source.label value source.number

/-- The marker of a record is reported in both. -/
theorem reportMarker (h : Alike f s t) (m : Memory) :
    Alike f (s.reportMarker (.memory m)) (t.reportMarker (.memory (m.renumber f))) := by
  unfold Scan.reportMarker
  rw [Memory.ofRecord?_renumber]
  cases Diagnostic.ofRecord? (.memory m) with
  | none => exact h
  | some d => exact h.report d

/-- A directive on one side or on both makes no difference. -/
theorem addDirective_right (h : Alike f s t) (source : SourceLine) :
    Alike f s (t.addDirective source) :=
  ⟨h.origin, h.symbols, h.diagnostics, h.complete,
    (t.program.memory_addDirective _).trans h.memory, h.address, h.emitted, h.checksumStart⟩

theorem addDirective (h : Alike f s t) (source source' : SourceLine) :
    Alike f (s.addDirective source) (t.addDirective source') := by
  have hright := h.addDirective_right source'
  have hleft : (s.addDirective source).program.memory = s.program.memory :=
    s.program.memory_addDirective _
  exact ⟨hright.origin, hright.symbols, hright.diagnostics, hright.complete,
    hleft ▸ hright.memory, hright.address, hright.emitted, hright.checksumStart⟩

/-- A memory record is added to both, each with its number. -/
theorem addMemory (h : Alike f s t) (m : Memory) :
    Alike f (s.addMemory m) (t.addMemory (m.renumber f)) := by
  have hcounted : Alike f (s.counted m) (t.counted (m.renumber f)) := by
    refine ⟨h.origin, h.symbols, h.diagnostics, h.complete, ?_, h.address, h.emitted,
      h.checksumStart⟩
    rw [counted, counted, Program.memory_addMemory, Program.memory_addMemory, h.memory,
      List.map_append, List.map_singleton]
  have hmarked := (hcounted.defineLabel m.source m.address).reportMarker m
  have hplace : t.addMemory (m.renumber f) =
      (((t.counted (m.renumber f)).defineLabel (m.source.renumber f) m.address).reportMarker
        (.memory (m.renumber f))).advance m.length := by
    rw [← Memory.source_renumber, ← Memory.address_renumber f m, ← Memory.length_renumber f m]
    rfl
  rw [hplace]
  exact ⟨hmarked.origin, hmarked.symbols, hmarked.diagnostics, hmarked.complete, hmarked.memory,
    congrArg (· + m.length) hmarked.address,
    congrArg (· || decide (0 < m.length)) hmarked.emitted, hmarked.checksumStart⟩

/-- There are as many memory records in both. -/
theorem size_memoryIndices (h : Alike f s t) :
    t.program.memoryIndices.size = s.program.memoryIndices.size := by
  rw [Program.size_memoryIndices, Program.size_memoryIndices, h.memory, List.length_map]

/-- A checksum covers the same records in both. -/
theorem addChecksum (h : Alike f s t) (source : SourceLine) :
    Alike f (s.addChecksum source) (t.addChecksum (source.renumber f)) := by
  have hadded := h.addMemory (.checksum ⟨source, UInt16.ofNat s.address,
    List.range' s.checksumStart (s.program.memoryIndices.size - s.checksumStart)⟩)
  unfold Scan.addChecksum
  rw [h.address, h.checksumStart, h.size_memoryIndices]
  exact ⟨hadded.origin, hadded.symbols, hadded.diagnostics, hadded.complete, hadded.memory,
    hadded.address, hadded.emitted, hadded.size_memoryIndices⟩

/-- The operand of a directive means the same in both. -/
theorem argument (h : Alike f s t) (operand : Text) : t.argument operand = s.argument operand := by
  have htext : t.argumentText operand = s.argumentText operand := by
    unfold argumentText
    rw [h.address, h.symbols]
  rw [Scan.argument, Scan.argument, htext]

/-- Both or none have run out of room. -/
theorem limitFault? (h : Alike f s t) : t.limitFault? = s.limitFault? := by
  rw [Scan.limitFault?, Scan.limitFault?, h.address, h.symbols]

/-- The start address is set in both, or fails to be in both. -/
theorem setOrigin (h : Alike f s t) (source : SourceLine) :
    Alike f (s.setOrigin source).1 (t.setOrigin (source.renumber f)).1 ∧
      (t.setOrigin (source.renumber f)).2 = (s.setOrigin source).2 := by
  have hoperand : (source.renumber f).operand = source.operand := rfl
  unfold Scan.setOrigin
  rw [h.emitted, hoperand, h.argument]
  split
  · have hlogged := h.log .warn .warn "Ignoring ORG after code" "Ignoring ORG after code"
      [("line", .number source.number)] [("line", .number (source.renumber f).number)]
    exact ⟨hlogged, hlogged.limitFault?⟩
  · split
    · exact ⟨h, rfl⟩
    · next value _ =>
      have hmoved : Alike f (s.moveTo value) (t.moveTo value) :=
        ⟨rfl, h.symbols, h.diagnostics, h.complete, h.memory, rfl, h.emitted, h.checksumStart⟩
      exact ⟨hmoved, hmoved.limitFault?⟩

/-- A constant is defined in both, or fails to be in both. -/
theorem defineConstant (h : Alike f s t) (source : SourceLine) :
    Alike f (s.defineConstant source).1 (t.defineConstant (source.renumber f)).1 ∧
      (t.defineConstant (source.renumber f)).2 = (s.defineConstant source).2 := by
  have hlabel : (source.renumber f).label = source.label := rfl
  have hoperand : (source.renumber f).operand = source.operand := rfl
  have hnumber : (source.renumber f).number = f source.number := rfl
  unfold Scan.defineConstant
  rw [hlabel, h.symbols, hoperand, h.argument, hnumber]
  split
  · exact ⟨h, rfl⟩
  · split
    · have hreported := h.report ⟨.duplicateSymbol, source.number⟩
      exact ⟨hreported, hreported.limitFault?⟩
    · split
      · exact ⟨h, rfl⟩
      · next value _ =>
        have hdefined := h.define source.label (wordOf value) source.number
        exact ⟨hdefined, hdefined.limitFault?⟩

/-- A line that could be read does the same to both, with the same fault if it has one. -/
theorem scanSource (h : Alike f s t) (source : SourceLine) :
    Alike f (s.scanSource source).1 (t.scanSource (source.renumber f)).1 ∧
      (t.scanSource (source.renumber f)).2 = (s.scanSource source).2 := by
  have hclass : (source.renumber f).classify = source.classify := rfl
  have hdirective := h.addDirective source (source.renumber f)
  unfold Scan.scanSource
  rw [hclass]
  cases source.classify with
  | comment => exact ⟨hdirective, hdirective.limitFault?⟩
  | finish => exact ⟨hdirective, hdirective.limitFault?⟩
  | origin => exact hdirective.setOrigin source
  | constant => exact hdirective.defineConstant source
  | checksum =>
    have hadded := h.addChecksum source
    exact ⟨hadded, hadded.limitFault?⟩
  | instruction =>
    have hmnemonic : (source.renumber f).mnemonic = source.mnemonic := rfl
    dsimp only
    rw [h.address, h.symbols, Instruction.create?_renumber, hmnemonic]
    cases Instruction.create? source (UInt16.ofNat s.address) s.program.symbols with
    | none => exact ⟨h, rfl⟩
    | some i =>
      have hadded := h.addMemory (.instruction i)
      exact ⟨hadded, hadded.limitFault?⟩

/-- A line does the same to both, each reading it under its own number. -/
theorem scanLine (h : Alike f s t) (number : Int) (line : Text) :
    Alike f (s.scanLine number line).1 (t.scanLine (f number) line).1 ∧
      (t.scanLine (f number) line).2 = (s.scanLine number line).2.map (FatalError.renumber f) := by
  have hparse := SourceLine.parse_renumber f number line
  cases hread : SourceLine.parse number line with
  | error cause =>
    rw [hread] at hparse
    rw [scanLine_of_error hread, scanLine_of_error hparse]
    exact ⟨h, rfl⟩
  | ok source =>
    rw [hread] at hparse
    rw [scanLine_of_parse hread, scanLine_of_parse hparse]
    obtain ⟨hnext, hfault⟩ := h.scanSource source
    refine ⟨hnext, ?_⟩
    dsimp only
    rw [hfault, Option.map_map]
    rfl

end Alike

end Scan

/-- The openings of two runs from one address are alike, whatever the lines and their numbers. -/
theorem Assembly.alike_opening (f : Int → Int) (origin : UInt16) (lines others : List Text) :
    Scan.Alike f (opening origin lines) (opening origin others) :=
  ⟨rfl, rfl, rfl, rfl, rfl, rfl, rfl, rfl⟩

end ColumnAssembler
