import ColumnAssembler.Proofs.ChecksumCancellation
import ColumnAssembler.Proofs.LineEffect
import ColumnAssembler.Proofs.MemoryLayout

/-!
# The state of the first pass

What the parts of the state have to do with each other after every line that did not fail: the
address counter is the start address and the size of the program, and an address; the records are
the lines, in order; the memory records are those of instruction and checksum lines; and the open
segment starts behind the last checksum. A line that runs out of room takes the counter at most
three bytes, and the table at most one symbol, over the limit.
-/

namespace ColumnAssembler

/-- The bytes of all records are those of the memory records. -/
theorem Program.size_eq (p : Program) : p.size = Memory.total p.memory := by
  have hsum : ∀ (records : List Record) (start : Nat),
      records.foldl (fun total r => total + r.length) start =
        start + Memory.total (Record.memoryOf records) := by
    intro records
    induction records with
    | nil => intro start; rfl
    | cons r rest ih =>
      intro start
      rw [List.foldl_cons, ih]
      cases r with
      | directive d => rfl
      | memory m =>
        have hmemory : Record.memoryOf (.memory m :: rest) = m :: Record.memoryOf rest := rfl
        rw [hmemory, Memory.total, Record.length, Nat.add_assoc]
  rw [size, ← Array.foldl_toList, hsum, Nat.zero_add, memory_eq]

namespace Record

/-- The class of the lines that become records like this one. -/
def lineClass : Record → LineClass
  | directive d => d.lineClass
  | memory (.instruction _) => .instruction
  | memory (.checksum _) => .checksum

/-- Whether the record is an instruction or a checksum. -/
def isMemory (r : Record) : Bool := r.lineClass == .instruction || r.lineClass == .checksum

/-- The record is of the class of its line, and no directive is on an instruction or checksum
line. -/
structure OfLine (r : Record) : Prop where
  /-- The record has the class of the line it stands on. -/
  lineClass : r.lineClass = r.source.classify
  /-- It has a place in memory exactly when it is an instruction or a checksum. -/
  memory : r.memory?.isSome = r.isMemory

/-- The memory records are the instructions and checksums among the records. -/
theorem map_memoryOf {records : List Record} (h : ∀ r ∈ records, r.OfLine) :
    (memoryOf records).map Record.memory = records.filter isMemory := by
  induction records with
  | nil => rfl
  | cons r rest ih =>
    have hrest := ih fun other hother => h other (List.mem_cons_of_mem _ hother)
    have hown := (h r List.mem_cons_self).memory
    rw [List.filter_cons, ← hown]
    cases r with
    | directive d => exact hrest
    | memory m => exact congrArg (Record.memory m :: ·) hrest

/-- The positions of the memory records are those of the instructions and checksums. -/
theorem memoryIndices_of_lines {records : List Record} (h : ∀ r ∈ records, r.OfLine) :
    memoryIndices records =
      (List.range records.length).filter fun k => records[k]?.any isMemory := by
  refine List.filter_congr fun k _ => ?_
  cases hr : records[k]? with
  | none => rfl
  | some r => exact (h r (List.mem_of_getElem? hr)).memory

end Record

namespace Memory

/-- Behind the start of the open segment there is no checksum. -/
theorem not_checksum_of_mem_drop {memory : List Memory} {m : Memory}
    (h : m ∈ memory.drop (segmentStart memory)) : m.isChecksum = false := by
  have hsplit : memory.rdropWhile (fun m => !m.isChecksum) ++
      memory.rtakeWhile (fun m => !m.isChecksum) = memory := List.rdropWhile_append_rtakeWhile
  have hlength := congrArg List.length hsplit
  rw [List.length_append] at hlength
  have hstart : segmentStart memory =
      (memory.rdropWhile fun m => !m.isChecksum).length := by
    rw [segmentStart]
    omega
  have hdrop : memory.drop (segmentStart memory) =
      memory.rtakeWhile fun m => !m.isChecksum := by
    rw [hstart]
    nth_rewrite 2 [← hsplit]
    exact List.drop_left
  rw [hdrop] at h
  simpa using List.mem_rtakeWhile_imp h

/-- Before the start of the open segment there is a checksum, unless it is the first one. -/
theorem segmentStart_eq_zero_or (memory : List Memory) :
    segmentStart memory = 0 ∨ ∃ c, memory[segmentStart memory - 1]? = some (.checksum c) := by
  induction memory using List.reverseRecOn with
  | nil => exact Or.inl rfl
  | append_singleton front m ih =>
    cases m with
    | checksum c =>
      right
      refine ⟨c, ?_⟩
      rw [segmentStart_concat_checksum front rfl, Nat.add_sub_cancel, List.getElem?_concat_length]
    | instruction i =>
      rw [segmentStart_concat_instruction front rfl]
      rcases ih with hzero | ⟨c, hc⟩
      · exact Or.inl hzero
      · have hbound := (List.getElem?_eq_some_iff.mp hc).1
        exact Or.inr ⟨c, by rw [List.getElem?_append_left hbound, hc]⟩

end Memory

namespace Scan

/-- The records are the lines read, in order, each of the class of its line. -/
structure Numbered (count : Nat) (s : Scan) : Prop where
  /-- There is a record for each line. -/
  size : s.program.records.size = count
  /-- A record has the number of its position, counted from one. -/
  numbers : ∀ (k : Nat) (r : Record), s.program.records.toList[k]? = some r →
    r.source.number = k + 1
  /-- Every record is of the class of its line. -/
  kinds : ∀ r ∈ s.program.records.toList, r.OfLine

/-- The record that a line adds is of the class of the line. -/
theorem ofLine_of_record? {s : Scan} {source : SourceLine} {r : Record}
    (h : s.record? source = some r) : r.OfLine := by
  have hsource := source_of_record? h
  unfold record? at h
  cases hclass : source.classify with
  | comment | finish | origin | constant | checksum =>
    simp only [hclass, Option.some.injEq] at h
    constructor
    · rw [hsource, hclass, ← h]
      rfl
    · rw [← h]
      rfl
  | instruction =>
    rw [hclass] at h
    obtain ⟨i, _, hi⟩ := Option.map_eq_some_iff.mp h
    constructor
    · rw [hsource, hclass, ← hi]
      rfl
    · rw [← hi]
      rfl

/-- A line that takes a step adds a record. -/
theorem record?_of_step {s : Scan} {source : SourceLine}
    (h : Step s source (s.scanSource source).1) : ∃ r, s.record? source = some r := by
  obtain ⟨r, _, hr⟩ := h.records
  have hrecords := records_scanSource s source
  rw [hr, Array.toList_push, List.append_cancel_left_eq] at hrecords
  cases hrecord : s.record? source with
  | none => simp [hrecord] at hrecords
  | some added => exact ⟨added, rfl⟩

/-- The line of the next number keeps the records numbered. -/
theorem Numbered.step {s : Scan} {source : SourceLine} {count : Nat} (hs : Numbered count s)
    (hnumber : source.number = count + 1) (h : Step s source (s.scanSource source).1) :
    Numbered (count + 1) (s.scanSource source).1 := by
  obtain ⟨added, hadded⟩ := record?_of_step h
  have hrecords := records_scanSource s source
  rw [hadded, Option.toList_some] at hrecords
  have hsize : s.program.records.toList.length = count := by
    rw [Array.length_toList]
    exact hs.size
  refine ⟨?_, fun k r hr => ?_, fun r hr => ?_⟩
  · rw [← Array.length_toList, hrecords, List.length_append, hsize, List.length_singleton]
  · rw [hrecords] at hr
    rcases getElem?_concat_cases hr with ⟨_, hearlier⟩ | ⟨hend, hsame⟩
    · exact hs.numbers k r hearlier
    · rw [← hsame, source_of_record? hadded, hnumber, hend, hsize]
  · rw [hrecords, List.mem_append, List.mem_singleton] at hr
    rcases hr with hr | rfl
    · exact hs.kinds r hr
    · exact ofLine_of_record? hadded

/-- No record takes more than three bytes when it is added. -/
theorem Becomes.length_le {s : Scan} {source : SourceLine} {m : Memory} (h : Becomes s source m) :
    m.length ≤ Instruction.maxSize := by
  cases h with
  | checksum =>
    have hmax : Instruction.maxSize = 3 := rfl
    rw [Memory.length]
    omega
  | instruction hcreate =>
    rename_i i
    rw [Memory.length]
    cases hp : i.isPending with
    | true =>
      have hmax : Instruction.maxSize = 3 := rfl
      rw [Instruction.length_of_pending hp, Instruction.reservedLength]
      split <;> omega
    | false =>
      obtain ⟨value, _, hvalue⟩ := Instruction.create?_settled hcreate hp
      exact (Instruction.length_le_of_encodingOf hvalue).1

/-- A state with room has no more symbols than allowed. -/
theorem symbols_le_of_room {s : Scan} (h : s.limitFault? = none) :
    s.program.symbols.size ≤ SymbolTable.maxSymbols := by
  unfold limitFault? at h
  split at h
  · simp at h
  · split at h
    · simp at h
    · next hfull =>
      rw [SymbolTable.isExceeded, decide_eq_true_eq] at hfull
      omega

/-- A step from a state with room goes at most three bytes and one symbol over the limits. -/
theorem Step.overrun {s t : Scan} {source : SourceLine} (h : Step s source t)
    (hroom : s.limitFault? = none) :
    t.address ≤ Fault.maxAddress + 3 ∧ t.program.symbols.size ≤ SymbolTable.maxSymbols + 1 := by
  have haddress := address_le_of_room hroom
  have hsymbols := symbols_le_of_room hroom
  constructor
  · cases h with
    | directive h =>
      rcases h.placed with ⟨hsame, _⟩ | ⟨_, hmoved⟩
      · omega
      · have hlt := t.program.origin.toNat_lt
        have hmax : Fault.maxAddress = 0xFFFF := rfl
        omega
    | memory m become h =>
      have hlength := become.length_le
      have hmax : Instruction.maxSize = 3 := rfl
      have hmoved := h.address
      omega
  · rcases h.symbols with hsame | ⟨_, value, hdefine⟩
    · rw [hsame]
      omega
    · unfold SymbolTable.define? at hdefine
      split at hdefine
      · simp at hdefine
      · rw [← Option.some.inj hdefine, SymbolTable.size, List.length_append,
          List.length_singleton]
        rw [SymbolTable.size] at hsymbols
        omega

/-- A pass that starts with room ends with room, or with a step from a state that had it. -/
theorem scanLines_last (cancelAt : Option Nat) (lines : List Text) (s : Scan) (count : Nat)
    (hs : s.limitFault? = none) :
    ∃ last : Scan, last.limitFault? = none ∧ ((scanLines cancelAt s count lines).1 = last ∨
      ∃ source, Step last source (scanLines cancelAt s count lines).1) := by
  induction lines generalizing s count with
  | nil => exact ⟨s, hs, Or.inl rfl⟩
  | cons line rest ih =>
    rw [scanLines]
    split
    · exact ⟨s, hs, Or.inl rfl⟩
    · split
      · next next e hline =>
        have hnext : (s.scanLine (count + 1) line).1 = next := by rw [hline]
        rcases scanLine_step s (count + 1) line with ⟨hsame, _⟩ | ⟨source, _, hstep⟩
        · exact ⟨s, hs, Or.inl (hnext.symm.trans hsame)⟩
        · exact ⟨s, hs, Or.inr ⟨source, hnext ▸ hstep⟩⟩
      · next next hline =>
        obtain ⟨_, _, _, hroom⟩ := scanLine_ok hline
        exact ih next (count + 1) hroom

/-- A state without room is over one of the limits. -/
theorem exceeded_of_limitFault? {s : Scan} {fault : Fault} (h : s.limitFault? = some fault) :
    Fault.maxAddress < s.address ∨ SymbolTable.maxSymbols < s.program.symbols.size := by
  unfold limitFault? at h
  split at h
  · next haddress => exact Or.inl haddress
  · split at h
    · next hfull => exact Or.inr (of_decide_eq_true hfull)
    · simp at h

/-- A pass that runs out of room ends in a state that has none. -/
theorem scanLines_exhausted {cancelAt : Option Nat} {lines : List Text} {s : Scan} {count : Nat}
    {e : FatalError} (h : (scanLines cancelAt s count lines).2 = some (.fatal e))
    (hkind : e.fault.kind = .resourceExhausted) :
    (scanLines cancelAt s count lines).1.limitFault? = some e.fault := by
  induction lines generalizing s count with
  | nil => simp [scanLines] at h
  | cons line rest ih =>
    rw [scanLines] at h ⊢
    split at h
    · simp at h
    · next hgo =>
      rw [if_neg hgo]
      cases hparse : SourceLine.parse (count + 1) line with
      | error cause =>
        rw [scanLine_of_error hparse, Option.some.injEq, Failure.fatal.injEq] at h
        rw [← h] at hkind
        exact absurd hkind (by simp [Fault.kind])
      | ok source =>
        rw [scanLine_of_parse hparse] at h ⊢
        cases hfault : (s.scanSource source).2 with
        | none =>
          rw [hfault] at h
          exact ih h
        | some fault =>
          rw [hfault, Option.map_some, Option.some.injEq, Failure.fatal.injEq] at h
          have hsame : fault = e.fault := by rw [← h]
          rw [← hsame] at hkind ⊢
          exact scanSource_exhausted hfault hkind

/-- The state of the first pass after the given number of lines, none of which failed. -/
structure Sound (count : Nat) (s : Scan) : Prop where
  /-- The counter has moved over the bytes of all records. -/
  address : s.address = s.program.origin.toNat + s.program.size
  /-- The counter is an address. -/
  room : s.address ≤ 0xFFFF
  /-- A byte was taken exactly when the program has one. -/
  emitted : s.emitted = true ↔ 0 < s.program.size
  /-- The table is not full. -/
  symbols : s.program.symbols.size ≤ 255
  /-- There is one record for each line. -/
  records : s.program.records.size = count
  /-- A record has the number of its position, counted from one. -/
  numbers : ∀ (k : Nat) (r : Record), s.program.records.toList[k]? = some r →
    r.source.number = k + 1
  /-- A record is of the class of its line. -/
  kinds : ∀ r ∈ s.program.records.toList, r.lineClass = r.source.classify
  /-- The memory records are the instructions and checksums among the records, in order. -/
  memory : s.program.memory.map Record.memory = s.program.records.toList.filter Record.isMemory
  /-- The positions kept of them are those of the instructions and checksums, in order. -/
  indices : s.program.memoryIndices.toList =
    (List.range s.program.records.size).filter fun k =>
      s.program.records[k]?.any Record.isMemory
  /-- The open segment starts at the first record, or behind a checksum. -/
  segment : s.checksumStart = 0 ∨
    ∃ c, s.program.memory[s.checksumStart - 1]? = some (.checksum c)
  /-- There is no checksum in the open segment. -/
  segmentOpen : ∀ m ∈ s.program.memory.drop s.checksumStart, m.isChecksum = false

end Scan

namespace Assembly

variable {origin : UInt16} {cancelAt : Option Nat} {lines : List Text}

/-- There is room at the opening. -/
theorem room_opening (origin : UInt16) (lines : List Text) :
    (opening origin lines).limitFault? = none := by
  have haddress : ¬ Fault.maxAddress < (opening origin lines).address :=
    Nat.not_lt.mpr (Nat.le_of_lt_succ origin.toNat_lt)
  rw [Scan.limitFault?, if_neg haddress]
  rfl

/-- A pass that was not stopped has room for the next line. -/
theorem room_stateAfter {count : Nat}
    (h : (Scan.scanLines cancelAt (opening origin lines) 0 (lines.take count)).2 = none) :
    (stateAfter origin cancelAt lines count).limitFault? = none :=
  Scan.scanLines_preserves_ok (P := fun s => s.limitFault? = none) (fun _ _ hroom => hroom)
    (stateAfter_ok h (Nat.le_refl count)) (room_opening origin lines)

/-- The records of the first pass are numbered, wherever it stops. -/
theorem numbered_stateAfter (origin : UInt16) (cancelAt : Option Nat) (lines : List Text)
    (count : Nat) :
    ∃ last, Scan.Numbered last (stateAfter origin cancelAt lines count) ∧
      ((Scan.scanLines cancelAt (opening origin lines) 0 (lines.take count)).2 = none →
        last = (lines.take count).length) := by
  have hopen : Scan.Numbered 0 (opening origin lines) :=
    ⟨rfl, fun k r hr => by simp [opening, Scan.log, Scan.start, Program.empty] at hr,
      fun r hr => by simp [opening, Scan.log, Scan.start, Program.empty] at hr⟩
  obtain ⟨last, hlast, hall⟩ := Scan.scanLines_numbered (P := Scan.Numbered) cancelAt
    (fun hs hnumber hstep => hs.step hnumber hstep) (lines.take count) (opening origin lines) 0 hopen
  exact ⟨last, hlast, fun h => (hall h).trans (Nat.zero_add _)⟩

/-- The parts of the state agree after every line that did not fail. -/
theorem sound_stateAfter {count : Nat} (hcount : count ≤ lines.length)
    (h : (Scan.scanLines cancelAt (opening origin lines) 0 (lines.take count)).2 = none) :
    Scan.Sound count (stateAfter origin cancelAt lines count) := by
  have hlaid : Scan.Laid (stateAfter origin cancelAt lines count) := laid_stateAfter h
  have hsegments := segmented_stateAfter origin cancelAt lines count
  obtain ⟨last, hnumbered, hlast⟩ := numbered_stateAfter origin cancelAt lines count
  have hall := hlast h
  rw [List.length_take, Nat.min_eq_left hcount] at hall
  have hsize := (stateAfter origin cancelAt lines count).program.size_eq
  exact
    { address := by rw [hsize]; exact hlaid.address
      room := hlaid.room
      emitted := by rw [hsize]; exact hlaid.emitted
      symbols := Scan.symbols_le_of_room (room_stateAfter h)
      records := by rw [hnumbered.size, hall]
      numbers := hnumbered.numbers
      kinds := fun r hr => (hnumbered.kinds r hr).lineClass
      memory := by rw [Program.memory_eq]; exact Record.map_memoryOf hnumbered.kinds
      indices := by
        rw [Program.inStep, Record.memoryIndices_of_lines hnumbered.kinds, Array.length_toList]
        simp only [Array.getElem?_toList]
      segment := by rw [hsegments.checksumStart]; exact Memory.segmentStart_eq_zero_or _
      segmentOpen := fun m hm => by
        rw [hsegments.checksumStart] at hm
        exact Memory.not_checksum_of_mem_drop hm }

/-- A memory record stands at the address that the counter had before its line. -/
theorem address_of_line {count k : Nat} {m : Memory} (hcount : count ≤ lines.length)
    (h : (Scan.scanLines cancelAt (opening origin lines) 0 (lines.take count)).2 = none)
    (hm : (stateAfter origin cancelAt lines count).program.records.toList[k]? =
      some (.memory m)) : m.address.toNat = (stateAfter origin cancelAt lines k).address := by
  obtain ⟨_, source, _, hstep, hrecords⟩ := record_of_line h hcount hm
  have hk : k ≤ count := by
    have hsize := size_records_stateAfter h (Nat.le_refl count) hcount
    have hbound := (List.getElem?_eq_some_iff.mp hm).1
    rw [Array.length_toList] at hbound
    omega
  -- The counter before the line is an address, so nothing is lost when it becomes 16 bits.
  have hroom := Scan.address_le_of_room (room_stateAfter
    (congrArg Prod.snd (stateAfter_ok h hk)))
  cases hstep with
  | directive hd =>
    rw [hd.records, Array.push_eq_push] at hrecords
    exact absurd hrecords.1 (by simp)
  | memory added become hadded =>
    rw [hadded.records, Array.push_eq_push, Record.memory.injEq] at hrecords
    rw [← hrecords.1, become.place.2,
      UInt16.toNat_ofNat_of_lt' (Nat.lt_succ_of_le hroom)]

/-- After every line that did not fail, the parts of the state agree and every memory record stands
at the address the counter had before its line. When a line runs out of room, the counter or the
table is over its limit, the counter by at most three bytes and the table by one symbol. -/
theorem first_pass_state (origin : UInt16) (cancelAt : Option Nat) (lines : List Text) :
    (∀ count ≤ lines.length,
      (Scan.scanLines cancelAt (opening origin lines) 0 (lines.take count)).2 = none →
        Scan.Sound count (stateAfter origin cancelAt lines count) ∧
          ∀ (k : Nat) (m : Memory),
            (stateAfter origin cancelAt lines count).program.records.toList[k]? =
              some (.memory m) →
            m.address.toNat = (stateAfter origin cancelAt lines k).address) ∧
      ∀ e : FatalError,
        (Scan.scanLines cancelAt (opening origin lines) 0 lines).2 = some (.fatal e) →
        e.fault.kind = .resourceExhausted →
          (0xFFFF < (scanned origin cancelAt lines).address ∨
              255 < (scanned origin cancelAt lines).program.symbols.size) ∧
            (scanned origin cancelAt lines).address ≤ 0xFFFF + 3 ∧
            (scanned origin cancelAt lines).program.symbols.size ≤ 256 := by
  constructor
  · intro count hcount h
    exact ⟨sound_stateAfter hcount h, fun k m hm => address_of_line hcount h hm⟩
  · intro e hfailed hkind
    obtain ⟨last, hroom, hend⟩ :=
      Scan.scanLines_last cancelAt lines (opening origin lines) 0 (room_opening origin lines)
    have hexhausted := Scan.scanLines_exhausted hfailed hkind
    rw [scanned_eq]
    refine ⟨Scan.exceeded_of_limitFault? hexhausted, ?_⟩
    rcases hend with hsame | ⟨source, hstep⟩
    · rw [hsame, hroom] at hexhausted
      exact absurd hexhausted (by simp)
    · exact hstep.overrun hroom

/-- An instruction of three bytes at the last address takes the counter over its limit; the state
before it is sound, with the start moved and no byte taken. -/
theorem first_pass_state_overrun :
    let lines := [Text.ascii "        ORG  $FFFF", Text.ascii "LAST    LDA  $1234"]
    let e : FatalError := ⟨2, .addressExceeded 0x10002⟩
    (Scan.scanLines none (opening 0x8000 lines) 0 (lines.take 1)).2 = none ∧
      (Scan.scanLines none (opening 0x8000 lines) 0 lines).2 = some (.fatal e) ∧
      Scan.Sound 1 (stateAfter 0x8000 none lines 1) ∧
      (stateAfter 0x8000 none lines 1).address = 0xFFFF ∧
      (scanned 0x8000 none lines).address = 0x10002 ∧
      (scanned 0x8000 none lines).address ≤ 0xFFFF + 3 := by
  intro lines e
  have hmoved : (Scan.scanLines none (opening 0x8000 lines) 0 (lines.take 1)).2 = none := by
    decide +kernel
  have hfailed : (Scan.scanLines none (opening 0x8000 lines) 0 lines).2 = some (.fatal e) := by
    decide +kernel
  obtain ⟨hsound, hover⟩ := first_pass_state 0x8000 none lines
  exact ⟨hmoved, hfailed, (hsound 1 (by decide) hmoved).1, by decide +kernel, by decide +kernel,
    (hover e hfailed rfl).2.1⟩

end Assembly

end ColumnAssembler
