import ColumnAssembler.Assembly
import ColumnAssembler.Proofs.InstructionStages

/-!
# What a line does to the state of the first pass

Reading a line either stops the pass and leaves the state as it was, or adds exactly one record.
`Scan.Step` says all that a line with a record can do: a directive may move the start of a program
that has taken no byte, a memory record takes its bytes from the address counter on, and either
may define the label of the line. Invariants of the pass are derived from these steps and never
from the definition of the pass itself.
-/

namespace ColumnAssembler

/-- A place in a list with one more element is one of the list or the new one. -/
theorem getElem?_concat_cases {α : Type} {l : List α} {x y : α} {k : Nat}
    (h : (l ++ [x])[k]? = some y) : (k < l.length ∧ l[k]? = some y) ∨ (k = l.length ∧ x = y) := by
  have hbound := (List.getElem?_eq_some_iff.mp h).1
  rw [List.length_append, List.length_singleton] at hbound
  rcases Nat.lt_or_ge k l.length with hlt | hge
  · rw [List.getElem?_append_left hlt] at h
    exact Or.inl ⟨hlt, h⟩
  · have hend : k = l.length := by omega
    rw [hend, List.getElem?_concat_length, Option.some.injEq] at h
    exact Or.inr ⟨hend, h⟩

/-- A table with at most one more symbol, which has the given name and no empty one. -/
def SymbolTable.GrowsBy (name : Text) (table next : SymbolTable) : Prop :=
  next = table ∨ (name ≠ [] ∧ ∃ value, table.define? name value = some next)

namespace Memory

/-- Whether the record is a checksum. -/
def isChecksum : Memory → Bool
  | instruction _ => false
  | checksum _ => true

/-- Whether the record is an instruction whose operand has no value yet. -/
def isPending : Memory → Bool
  | instruction i => i.isPending
  | checksum _ => false

end Memory

namespace Scan

/-- A state with the same records, counters and place in memory. Only the symbols, the diagnostics
and what was told may differ. -/
structure Frame (s t : Scan) : Prop where
  /-- No record is added or changed. -/
  records : t.program.records = s.program.records
  /-- The start address stays. -/
  origin : t.program.origin = s.program.origin
  /-- The program is as complete as before. -/
  complete : t.program.complete = s.program.complete
  /-- The address counter stays. -/
  address : t.address = s.address
  /-- No byte is taken. -/
  emitted : t.emitted = s.emitted
  /-- The open segment starts where it did. -/
  checksumStart : t.checksumStart = s.checksumStart

/-- Frames compose. -/
theorem Frame.trans {s t u : Scan} (h : Frame s t) (k : Frame t u) : Frame s u where
  records := k.records.trans h.records
  origin := k.origin.trans h.origin
  complete := k.complete.trans h.complete
  address := k.address.trans h.address
  emitted := k.emitted.trans h.emitted
  checksumStart := k.checksumStart.trans h.checksumStart

/-- Every state frames itself. -/
theorem Frame.refl (s : Scan) : Frame s s := ⟨rfl, rfl, rfl, rfl, rfl, rfl⟩

/-- Reporting touches diagnostics and events only. -/
theorem frame_report (s : Scan) (d : Diagnostic) : Frame s (s.report d) :=
  ⟨rfl, rfl, rfl, rfl, rfl, rfl⟩

/-- A definition touches symbols, diagnostics and events only. -/
theorem frame_define (s : Scan) (name : Text) (value : UInt16) (line : Int) :
    Frame s (s.define name value line) := by
  unfold define
  split
  · exact frame_report s _
  · exact ⟨rfl, rfl, rfl, rfl, rfl, rfl⟩

/-- A definition adds the symbol, or leaves the table when the name is taken. -/
theorem symbols_define (s : Scan) {name : Text} (hname : name ≠ []) (value : UInt16) (line : Int) :
    s.program.symbols.GrowsBy name (s.define name value line).program.symbols := by
  unfold define
  split
  · exact Or.inl rfl
  · next table h => exact Or.inr ⟨hname, value, h⟩

/-- The label of a line is defined in the frame of the state. -/
theorem frame_defineLabel (s : Scan) (source : SourceLine) (value : UInt16) :
    Frame s (s.defineLabel source value) := by
  unfold defineLabel
  split
  · exact Frame.refl s
  · exact frame_define s _ _ _

/-- At most the label of a line is defined. -/
theorem symbols_defineLabel (s : Scan) (source : SourceLine) (value : UInt16) :
    s.program.symbols.GrowsBy source.label (s.defineLabel source value).program.symbols := by
  unfold defineLabel
  split
  · exact Or.inl rfl
  · next h => exact symbols_define s (by simpa using h) _ _

/-- A marker is reported in the frame of the state. -/
theorem frame_reportMarker (s : Scan) (r : Record) : Frame s (s.reportMarker r) := by
  unfold reportMarker
  split
  · exact frame_report s _
  · exact Frame.refl s

/-- Reporting a marker defines nothing. -/
theorem symbols_reportMarker (s : Scan) (r : Record) :
    (s.reportMarker r).program.symbols = s.program.symbols := by
  unfold reportMarker
  split <;> rfl

/-- The memory record that a line becomes: a checksum over the open segment, or the instruction
encoded with the symbols known so far. Both stand at the address counter. -/
inductive Becomes (s : Scan) (source : SourceLine) : Memory → Prop where
  /-- A checksum covers the records from the start of the open segment to the last one. -/
  | checksum : Becomes s source (.checksum ⟨source, UInt16.ofNat s.address,
      List.range' s.checksumStart (s.program.memoryIndices.size - s.checksumStart)⟩)
  /-- An instruction is created with the symbols known so far. -/
  | instruction {i : Instruction}
      (h : Instruction.create? source (UInt16.ofNat s.address) s.program.symbols = some i) :
      Becomes s source (.instruction i)

/-- The memory record of a line stands on it, at the address counter. -/
theorem Becomes.place {s : Scan} {source : SourceLine} {m : Memory} (h : Becomes s source m) :
    m.source = source ∧ m.address = UInt16.ofNat s.address := by
  cases h with
  | checksum => exact ⟨rfl, rfl⟩
  | instruction h => exact Instruction.samePlace_create? h

/-- What a directive does to the state. -/
structure DirectiveStep (s : Scan) (source : SourceLine) (t : Scan) : Prop where
  /-- Its record is added. -/
  records : t.program.records = s.program.records.push (.directive ⟨source, source.classify⟩)
  /-- The program is as complete as before. -/
  complete : t.program.complete = s.program.complete
  /-- The start address and the counter stay, or both move before any byte was taken. -/
  placed : (t.address = s.address ∧ t.program.origin = s.program.origin) ∨
    (s.emitted = false ∧ t.address = t.program.origin.toNat)
  /-- It takes no byte. -/
  emitted : t.emitted = s.emitted
  /-- The open segment starts where it did. -/
  checksumStart : t.checksumStart = s.checksumStart
  /-- At most the label is defined. -/
  symbols : s.program.symbols.GrowsBy source.label t.program.symbols

/-- What a memory record does to the state. -/
structure MemoryStep (s : Scan) (m : Memory) (t : Scan) : Prop where
  /-- The record is added. -/
  records : t.program.records = s.program.records.push (.memory m)
  /-- The program is as complete as before. -/
  complete : t.program.complete = s.program.complete
  /-- The start address stays. -/
  origin : t.program.origin = s.program.origin
  /-- The counter moves over the bytes of the record. -/
  address : t.address = s.address + m.length
  /-- A record with bytes takes them. -/
  emitted : t.emitted = (s.emitted || 0 < m.length)
  /-- A checksum opens a new segment behind it. -/
  checksumStart : t.checksumStart =
    if m.isChecksum then s.program.memoryIndices.size + 1 else s.checksumStart
  /-- At most the label is defined. -/
  symbols : s.program.symbols.GrowsBy m.source.label t.program.symbols

/-- The memory records after a directive. -/
theorem DirectiveStep.memory {s t : Scan} {source : SourceLine} (h : DirectiveStep s source t) :
    t.program.memory = s.program.memory := by
  rw [Program.memory_eq, h.records, Array.toList_push, Record.memoryOf_concat_directive,
    Program.memory_eq]

/-- The memory records after one more. -/
theorem MemoryStep.memory {s t : Scan} {m : Memory} (h : MemoryStep s m t) :
    t.program.memory = s.program.memory ++ [m] := by
  rw [Program.memory_eq, h.records, Array.toList_push, Record.memoryOf_concat_memory,
    Program.memory_eq]

/-- A line with a record: all that it can do. -/
inductive Step (s : Scan) (source : SourceLine) (t : Scan) : Prop where
  /-- The line is a directive. -/
  | directive (h : DirectiveStep s source t)
  /-- The line takes a place in memory. -/
  | memory (m : Memory) (become : Becomes s source m) (h : MemoryStep s m t)

/-- The record of a directive is all that it adds. -/
theorem directiveStep_add (s : Scan) (source : SourceLine) :
    DirectiveStep s source (s.addDirective source) :=
  ⟨rfl, rfl, Or.inl ⟨rfl, rfl⟩, rfl, rfl, Or.inl rfl⟩

/-- A state framed by that of a directive, with at most the label defined. -/
theorem DirectiveStep.of_frame {s t : Scan} {source : SourceLine}
    (h : Frame (s.addDirective source) t)
    (hs : s.program.symbols.GrowsBy source.label t.program.symbols) :
    DirectiveStep s source t where
  records := h.records
  complete := h.complete
  placed := Or.inl ⟨h.address, h.origin⟩
  emitted := h.emitted
  checksumStart := h.checksumStart
  symbols := hs

/-- A value that the operand of a directive means is an address. -/
theorem argument_range {s : Scan} {operand : Text} {value : Int64}
    (h : s.argument operand = .ok value) : 0 ≤ value.toInt ∧ value.toInt ≤ 0xFFFF := by
  unfold argument at h
  split at h
  · simp at h
  · split at h
    · simp at h
    · next hrange =>
      rw [Bool.or_eq_true, decide_eq_true_eq, decide_eq_true_eq, Int64.lt_iff_toInt_lt,
        Int64.lt_iff_toInt_lt, not_or] at hrange
      rw [← Except.ok.inj h]
      exact ⟨Int.not_lt.mp hrange.1, Int.not_lt.mp hrange.2⟩

/-- Nothing of an address is lost in its sixteen bits. -/
theorem toNat_wordOf {value : Int64} (h : 0 ≤ value.toInt ∧ value.toInt ≤ 0xFFFF) :
    (wordOf value).toNat = value.toInt.toNat := by
  have hlow : value.toInt % 2 ^ 16 = value.toInt :=
    Int.emod_eq_of_lt h.1 (Int.lt_of_le_of_lt h.2 (by decide))
  have hbound : value.toInt.toNat < 2 ^ 16 := by omega
  rw [wordOf, UInt16.ofInt, hlow, UInt16.toNat_ofNat_of_lt' hbound]

/-- The operand of a directive means an address: that is the number it was checked to be. -/
def Means (s : Scan) (operand : Text) (value : UInt16) : Prop :=
  ∃ checked : Int64, s.argument operand = .ok checked ∧ checked.toInt = value.toNat

/-- A checked value is what its sixteen bits mean. -/
theorem means_wordOf {s : Scan} {operand : Text} {checked : Int64}
    (h : s.argument operand = .ok checked) : s.Means operand (wordOf checked) := by
  have hrange := argument_range h
  refine ⟨checked, h, ?_⟩
  rw [toNat_wordOf hrange, Int.toNat_of_nonneg hrange.1]

/-- An operand means one address at most. -/
theorem Means.unique {s : Scan} {operand : Text} {value other : UInt16}
    (h : s.Means operand value) (k : s.Means operand other) : value = other := by
  obtain ⟨checked, hchecked, hvalue⟩ := h
  obtain ⟨same, hsame, hother⟩ := k
  rw [hchecked, Except.ok.injEq] at hsame
  rw [← hsame, hvalue] at hother
  exact UInt16.toNat_inj.mp (Int.ofNat_inj.mp hother)

/-- Setting the start address is a step of a directive. -/
theorem directiveStep_setOrigin (s : Scan) (source : SourceLine) :
    DirectiveStep s source ((s.addDirective source).setOrigin source).1 := by
  unfold setOrigin
  split
  · exact ⟨rfl, rfl, Or.inl ⟨rfl, rfl⟩, rfl, rfl, Or.inl rfl⟩
  · next h =>
    have hfree : s.emitted = false := eq_false_of_ne_true h
    split
    · exact directiveStep_add s source
    · next value hvalue =>
      exact ⟨rfl, rfl, Or.inr ⟨hfree, (toNat_wordOf (argument_range hvalue)).symm⟩, rfl, rfl,
        Or.inl rfl⟩

/-- Defining a constant is a step of a directive. -/
theorem directiveStep_defineConstant (s : Scan) (source : SourceLine) :
    DirectiveStep s source ((s.addDirective source).defineConstant source).1 := by
  unfold defineConstant
  split
  · exact directiveStep_add s source
  · next hlabel =>
    split
    · exact .of_frame (frame_report _ _) (Or.inl rfl)
    · split
      · exact directiveStep_add s source
      · have hname : source.label ≠ [] := by simpa using hlabel
        exact .of_frame (frame_define _ _ _ _) (symbols_define (s.addDirective source) hname _ _)

/-- Moving the counter keeps a frame. -/
theorem Frame.advance {s t : Scan} (h : Frame s t) (length : Nat) :
    Frame (s.advance length) (t.advance length) where
  records := h.records
  origin := h.origin
  complete := h.complete
  address := congrArg (· + length) h.address
  emitted := congrArg (· || decide (0 < length)) h.emitted
  checksumStart := h.checksumStart

/-- The state with a memory record added, before its label is defined. -/
def counted (s : Scan) (m : Memory) : Scan := { s with program := s.program.addMemory m }

/-- Adding a memory record counts it and moves on by its bytes. -/
theorem frame_addMemory (s : Scan) (m : Memory) :
    Frame ((s.counted m).advance m.length) (s.addMemory m) := by
  have hlabel := frame_defineLabel (s.counted m) m.source m.address
  exact (hlabel.trans (frame_reportMarker _ (.memory m))).advance m.length

/-- At most the label of a memory record is defined. -/
theorem symbols_addMemory (s : Scan) (m : Memory) :
    s.program.symbols.GrowsBy m.source.label (s.addMemory m).program.symbols := by
  have hlabel := symbols_defineLabel (s.counted m) m.source m.address
  have hmarker := symbols_reportMarker ((s.counted m).defineLabel m.source m.address) (.memory m)
  rw [← hmarker] at hlabel
  exact hlabel

/-- Adding an instruction is its step. -/
theorem memoryStep_addMemory (s : Scan) (i : Instruction) :
    MemoryStep s (.instruction i) (s.addMemory (.instruction i)) := by
  have h := frame_addMemory s (.instruction i)
  exact ⟨h.records, h.complete, h.origin, h.address, h.emitted, h.checksumStart,
    symbols_addMemory s _⟩

/-- Adding a checksum is its step. -/
theorem memoryStep_addChecksum (s : Scan) (source : SourceLine) :
    MemoryStep s (.checksum ⟨source, UInt16.ofNat s.address,
      List.range' s.checksumStart (s.program.memoryIndices.size - s.checksumStart)⟩)
      (s.addChecksum source) := by
  have h := frame_addMemory s (.checksum ⟨source, UInt16.ofNat s.address,
    List.range' s.checksumStart (s.program.memoryIndices.size - s.checksumStart)⟩)
  have hindices := congrArg Array.size (Program.memoryIndices_congr h.records)
  rw [advance, counted, Program.addMemory, Array.size_push] at hindices
  exact ⟨h.records, h.complete, h.origin, h.address, h.emitted, hindices, symbols_addMemory s _⟩

/-- A line that could be read leaves the state and stops the pass, or takes a step. -/
theorem scanSource_step (s : Scan) (source : SourceLine) :
    ((s.scanSource source).1 = s ∧ (s.scanSource source).2.isSome = true) ∨
      Step s source (s.scanSource source).1 := by
  unfold scanSource
  split
  · exact Or.inr (.directive (directiveStep_add s source))
  · exact Or.inr (.directive (directiveStep_add s source))
  · exact Or.inr (.directive (directiveStep_setOrigin s source))
  · exact Or.inr (.directive (directiveStep_defineConstant s source))
  · exact Or.inr (.memory _ .checksum (memoryStep_addChecksum s source))
  · split
    · exact Or.inl ⟨rfl, rfl⟩
    · next i h => exact Or.inr (.memory _ (.instruction h) (memoryStep_addMemory s i))

/-- The operand of a directive fails with a bad operand. -/
theorem argument_kind {s : Scan} {operand : Text} {fault : Fault}
    (h : s.argument operand = .error fault) : fault.kind = .badOperand := by
  unfold argument at h
  split at h
  · rw [Except.error.injEq] at h
    rw [← h]
    rfl
  · split at h
    · rw [Except.error.injEq] at h
      rw [← h]
      rfl
    · simp at h

/-- A line fails on its mnemonic or its operand, or the state it leads to is checked for room. -/
theorem scanSource_checked (s : Scan) (source : SourceLine) :
    (∃ t : Scan, s.scanSource source = t.checked) ∨
      ∃ fault, (s.scanSource source).2 = some fault ∧ fault.kind ≠ .resourceExhausted := by
  have hargument : ∀ {t : Scan} {operand : Text} {fault : Fault},
      t.argument operand = .error fault → fault.kind ≠ .resourceExhausted := by
    intro t operand fault hvalue
    rw [argument_kind hvalue]
    decide
  unfold scanSource
  split
  · exact Or.inl ⟨_, rfl⟩
  · exact Or.inl ⟨_, rfl⟩
  · unfold setOrigin
    split
    · exact Or.inl ⟨_, rfl⟩
    · split
      · next fault hvalue => exact Or.inr ⟨fault, rfl, hargument hvalue⟩
      · exact Or.inl ⟨_, rfl⟩
  · unfold defineConstant
    split
    · exact Or.inr ⟨_, rfl, by decide⟩
    · split
      · exact Or.inl ⟨_, rfl⟩
      · split
        · next fault hvalue => exact Or.inr ⟨fault, rfl, hargument hvalue⟩
        · exact Or.inl ⟨_, rfl⟩
  · exact Or.inl ⟨_, rfl⟩
  · split
    · exact Or.inr ⟨_, rfl, by simp [Fault.kind]⟩
    · exact Or.inl ⟨_, rfl⟩

/-- A line without a fault leaves room for the next one. -/
theorem scanSource_room {s : Scan} {source : SourceLine} (h : (s.scanSource source).2 = none) :
    (s.scanSource source).1.limitFault? = none := by
  rcases scanSource_checked s source with ⟨t, ht⟩ | ⟨fault, hfault, _⟩
  · rw [ht] at h ⊢
    exact h
  · rw [hfault] at h
    exact absurd h (by simp)

/-- A line runs out of room only where the state it leads to has none. -/
theorem scanSource_exhausted {s : Scan} {source : SourceLine} {fault : Fault}
    (h : (s.scanSource source).2 = some fault) (hkind : fault.kind = .resourceExhausted) :
    (s.scanSource source).1.limitFault? = some fault := by
  rcases scanSource_checked s source with ⟨t, ht⟩ | ⟨other, hother, hdifferent⟩
  · rw [ht] at h ⊢
    exact h
  · rw [hother, Option.some.injEq] at h
    rw [h] at hdifferent
    exact absurd hkind hdifferent

/-- A line leaves the state and stops the pass, or takes a step. -/
theorem scanLine_step (s : Scan) (number : Int) (line : Text) :
    ((s.scanLine number line).1 = s ∧ (s.scanLine number line).2.isSome = true) ∨
      ∃ source, SourceLine.parse number line = .ok source ∧
        Step s source (s.scanLine number line).1 := by
  unfold scanLine
  split
  · exact Or.inl ⟨rfl, rfl⟩
  · next source h =>
    rcases scanSource_step s source with ⟨hsame, hfault⟩ | hstep
    · exact Or.inl ⟨hsame, by simpa using hfault⟩
    · exact Or.inr ⟨source, h, hstep⟩

/-- A line that does not stop the pass takes a step and leaves room. -/
theorem scanLine_ok {s t : Scan} {number : Int} {line : Text}
    (h : s.scanLine number line = (t, none)) :
    ∃ source, SourceLine.parse number line = .ok source ∧ Step s source t ∧
      t.limitFault? = none := by
  have hnone : (s.scanLine number line).2 = none := by rw [h]
  rcases scanLine_step s number line with ⟨_, hsome⟩ | ⟨source, hparse, hstep⟩
  · rw [hnone] at hsome
    exact absurd hsome (by decide)
  · rw [h] at hstep
    refine ⟨source, hparse, hstep, ?_⟩
    simp only [scanLine, hparse, Prod.mk.injEq, Option.map_eq_none_iff] at h
    rw [← h.1]
    exact scanSource_room h.2

end Scan

end ColumnAssembler
