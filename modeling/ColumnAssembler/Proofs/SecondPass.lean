import ColumnAssembler.Proofs.FirstPass

/-!
# The second pass as a whole

The second pass resolves the records in order and keeps the ones behind the record that stops it, so
its result is a resolved front and an untouched rest. A run that completes resolves every record.
The statements about `Assembly.run` tie the program it returns to the state at the end of the first
pass: nothing but the records, the diagnostics and the completion is different.
-/

namespace ColumnAssembler

namespace Memory

/-- The record with its instruction resolved, if it is a pending one. -/
def resolved (table : SymbolTable) : Memory → Memory
  | instruction i => instruction (i.resolve table).1
  | checksum c => checksum c

variable (table : SymbolTable)

/-- Resolving keeps the line. -/
@[simp] theorem source_resolved (m : Memory) : (m.resolved table).source = m.source := by
  cases m with
  | instruction i => exact (Instruction.samePlace_resolve i table).source
  | checksum c => rfl

/-- Resolving keeps the address. -/
@[simp] theorem address_resolved (m : Memory) : (m.resolved table).address = m.address := by
  cases m with
  | instruction i => exact (Instruction.samePlace_resolve i table).address
  | checksum c => rfl

/-- Resolving keeps the kind of a record. -/
@[simp] theorem isChecksum_resolved (m : Memory) :
    (m.resolved table).isChecksum = m.isChecksum := by
  cases m <;> rfl

/-- A record that is not pending stays as it is. -/
theorem resolved_of_not_pending {m : Memory} (h : m.isPending = false) : m.resolved table = m := by
  cases m with
  | instruction i => rw [resolved, Instruction.resolve_of_not_pending table h]
  | checksum c => rfl

/-- No record is pending after it was resolved. -/
theorem isPending_resolved (m : Memory) : (m.resolved table).isPending = false := by
  cases m with
  | instruction i => exact Instruction.isPending_resolve i table
  | checksum c => rfl

/-- A record that is not pending emits as many bytes as it takes. -/
theorem length_bytes {m : Memory} (h : m.isPending = false) (contributions : Array UInt8) :
    (m.bytes contributions).length = m.length := by
  cases m with
  | instruction i => exact Instruction.length_bytes h
  | checksum c => rfl

/-- Why the record cannot be resolved. -/
def unresolved? : Memory → Option UnresolvedOperand
  | instruction i => (i.resolve table).2
  | checksum _ => none

end Memory

namespace Record

/-- The record with its instruction resolved, if it is a pending one. -/
def resolved (table : SymbolTable) : Record → Record
  | directive d => directive d
  | memory m => memory (m.resolved table)

/-- Why the record cannot be resolved. -/
def unresolved? (table : SymbolTable) : Record → Option UnresolvedOperand
  | directive _ => none
  | memory m => m.unresolved? table

/-- Whether the record is an instruction whose operand has no value yet. -/
def isPending : Record → Bool
  | directive _ => false
  | memory m => m.isPending

/-- The diagnostic that the second pass finds for a record: that of a pending one once resolved. -/
def lateDiagnostic? (table : SymbolTable) (r : Record) : Option Diagnostic :=
  if r.isPending then Diagnostic.ofRecord? (r.resolved table) else none

variable (table : SymbolTable)

/-- Resolving keeps the line. -/
@[simp] theorem source_resolved (r : Record) : (r.resolved table).source = r.source := by
  cases r with
  | directive d => rfl
  | memory m => exact m.source_resolved table

/-- The memory records among resolved records are the memory records, resolved. -/
theorem memoryOf_map_resolved (records : List Record) :
    memoryOf (records.map (resolved table)) = (memoryOf records).map (Memory.resolved table) := by
  unfold memoryOf
  rw [List.filterMap_map, List.map_filterMap]
  congr 1
  funext r
  cases r <;> rfl

end Record

/-- No memory record of a program that can be emitted is marked. -/
theorem Program.marker?_eq_none {p : Program} (h : p.isEmittable = true) {m : Memory}
    (hm : m ∈ p.memory) : m.marker? = none := by
  obtain ⟨_, hmarkers⟩ := Bool.and_eq_true_iff.mp h
  exact Option.isNone_iff_eq_none.mp (List.all_eq_true.mp hmarkers m hm)

namespace Resolution

variable (table : SymbolTable)

/-- A pass that has stopped keeps every record. -/
theorem step_of_stopped {r : Resolution} (h : r.failure ≠ none) (record : Record) :
    step table r record = r.keep record := by
  have hstop : r.failure.isNone = false :=
    Bool.eq_false_iff.mpr fun hn => h (Option.isNone_iff_eq_none.mp hn)
  unfold step
  split
  · rw [hstop, Bool.and_false]
    rfl
  · rfl

/-- A pass that goes on resolves the record, reports its marker and stops where resolving fails. -/
theorem step_of_running {r : Resolution} (h : r.failure = none) (record : Record) :
    (step table r record).records = r.records.push (record.resolved table) ∧
      (step table r record).diagnostics.toList =
        r.diagnostics.toList ++ (record.lateDiagnostic? table).toList ∧
      ((step table r record).failure = none ↔ record.unresolved? table = none) := by
  match record with
  | .directive d =>
    exact ⟨rfl, (List.append_nil _).symm, by simp [step, keep, h, Record.unresolved?]⟩
  | .memory (.checksum c) =>
    exact ⟨rfl, (List.append_nil _).symm,
      by simp [step, keep, h, Record.unresolved?, Memory.unresolved?]⟩
  | .memory (.instruction i) =>
    simp only [step, Record.resolved, Memory.resolved, Record.unresolved?, Memory.unresolved?,
      Record.lateDiagnostic?, Record.isPending, Memory.isPending]
    rcases Instruction.resolve_cases i table with ⟨hp, hi⟩ | ⟨hp, _, _, hi⟩ | ⟨hp, _, _, hi⟩
    · simp [hp, hi, keep, h]
    · simp [hp, h, resolve, hi, keep]
    · simp [hp, h, resolve, hi, keep, Diagnostic.ofRecord?, Record.marker?, Memory.marker?,
        Instruction.marker?]

/-- A pass that has stopped adds the rest of the records as they are. -/
theorem foldl_of_stopped {r : Resolution} (h : r.failure ≠ none) (records : List Record) :
    (records.foldl (step table) r).records.toList = r.records.toList ++ records ∧
      (records.foldl (step table) r).diagnostics = r.diagnostics ∧
      (records.foldl (step table) r).failure ≠ none := by
  induction records generalizing r with
  | nil => exact ⟨(List.append_nil _).symm, rfl, h⟩
  | cons record rest ih =>
    rw [List.foldl_cons, step_of_stopped table h]
    obtain ⟨hrecords, hdiagnostics, hfailure⟩ := ih (r := r.keep record) h
    refine ⟨?_, hdiagnostics, hfailure⟩
    rw [hrecords, keep, Array.toList_push, List.append_assoc]
    rfl

/-- What a pass that goes on makes of records: a front is resolved with its markers reported, and
the rest is kept, of which there is none when the pass ends without a failure. -/
structure Passes (front rest : List Record) (r next : Resolution) : Prop where
  /-- The front is resolved, the rest is kept. -/
  records : next.records.toList =
    r.records.toList ++ (front.map (Record.resolved table) ++ rest)
  /-- The markers found in the front are reported in order. -/
  diagnostics : next.diagnostics.toList =
    r.diagnostics.toList ++ front.filterMap (Record.lateDiagnostic? table)
  /-- A pass without a failure has resolved all records. -/
  complete : next.failure = none →
    rest = [] ∧ ∀ record ∈ front, record.unresolved? table = none

/-- A pass that goes on resolves a front of the records and keeps the rest. -/
theorem foldl_of_running {r : Resolution} (h : r.failure = none) (records : List Record) :
    ∃ front rest, records = front ++ rest ∧
      Passes table front rest r (records.foldl (step table) r) := by
  induction records generalizing r with
  | nil => exact ⟨[], [], rfl, by simp, by simp, by simp⟩
  | cons record others ih =>
    obtain ⟨hpush, hfound, hfail⟩ := step_of_running table h record
    rw [List.foldl_cons]
    by_cases hnext : (step table r record).failure = none
    · obtain ⟨front, rest, hsplit, hpasses⟩ := ih hnext
      refine ⟨record :: front, rest, by rw [hsplit, List.cons_append], ?_, ?_, ?_⟩
      · rw [hpasses.records, hpush, Array.toList_push]
        simp
      · rw [hpasses.diagnostics, hfound, List.filterMap_cons]
        cases record.lateDiagnostic? table <;> simp
      · intro hdone
        obtain ⟨hrest, hall⟩ := hpasses.complete hdone
        exact ⟨hrest, List.forall_mem_cons.mpr ⟨hfail.mp hnext, hall⟩⟩
    · -- This record stops the pass: it is the last one of the front.
      obtain ⟨hrecords, hdiagnostics, hstopped⟩ := foldl_of_stopped table hnext others
      refine ⟨[record], others, rfl, ?_, ?_, fun hdone => absurd hdone hstopped⟩
      · rw [hrecords, hpush, Array.toList_push]
        simp
      · rw [hdiagnostics, hfound, List.filterMap_cons]
        cases record.lateDiagnostic? table <;> simp

/-- The second pass resolves a front of the records and keeps the rest. -/
theorem run_passes (records : List Record) :
    ∃ front rest, records = front ++ rest ∧ Passes table front rest start (run table records) :=
  foldl_of_running table rfl records

end Resolution

namespace Assembly

variable {origin : UInt16} {cancelAt : Option Nat} {lines : List Text}

/-- A run is its first pass and, unless that is stopped, its second. -/
theorem run_eq : run origin cancelAt lines =
    match Scan.scanLines cancelAt (opening origin lines) 0 lines with
    | (s, some failure) => stopped s .scanning failure
    | (s, none) => resolve s := rfl

/-- A run that is stopped in the first pass returns the program of that pass. -/
theorem run_of_stopped {failure : Failure}
    (h : (Scan.scanLines cancelAt (opening origin lines) 0 lines).2 = some failure) :
    run origin cancelAt lines = stopped (scanned origin cancelAt lines) .scanning failure := by
  have hpair : Scan.scanLines cancelAt (opening origin lines) 0 lines =
      (scanned origin cancelAt lines, some failure) := by
    rw [scanned_eq, ← h]
  rw [run_eq, hpair]

/-- A run that is not stopped in the first pass goes on with the second. -/
theorem run_of_scanned (h : (Scan.scanLines cancelAt (opening origin lines) 0 lines).2 = none) :
    run origin cancelAt lines = resolve (scanned origin cancelAt lines) := by
  have hpair : Scan.scanLines cancelAt (opening origin lines) 0 lines =
      (scanned origin cancelAt lines, none) := by
    rw [scanned_eq, ← h]
  rw [run_eq, hpair]

/-- The program after the second pass has its records, and the symbols of the first pass. -/
theorem resolve_program (s : Scan) :
    (resolve s).program.records =
        (Resolution.run s.program.symbols s.program.records.toList).records ∧
      (resolve s).program.diagnostics = s.program.diagnostics ++
        (Resolution.run s.program.symbols s.program.records.toList).diagnostics ∧
      (resolve s).program.symbols = s.program.symbols ∧
      ((resolve s).failure = none ↔
        (Resolution.run s.program.symbols s.program.records.toList).failure = none) ∧
      ((resolve s).failure ≠ none → (resolve s).program.complete = s.program.complete) := by
  unfold resolve
  dsimp only
  split
  · next h => simp [stopped, h, enter, Scan.log, Scan.withResolution, Program.withRecords]
  · next h => simp [finish, h, enter, Scan.log, Scan.withResolution, Program.withRecords]

/-- Whatever the end of a run, its program has the records of the first pass, a front of them
resolved, and the diagnostics of the first pass with those of that front behind them. -/
theorem records_run (origin : UInt16) (cancelAt : Option Nat) (lines : List Text) :
    ∃ front rest, (scanned origin cancelAt lines).program.records.toList = front ++ rest ∧
      (run origin cancelAt lines).program.records.toList =
        front.map (Record.resolved (scanned origin cancelAt lines).program.symbols) ++ rest ∧
      (run origin cancelAt lines).program.diagnostics.toList =
        (scanned origin cancelAt lines).program.diagnostics.toList ++
          front.filterMap
            (Record.lateDiagnostic? (scanned origin cancelAt lines).program.symbols) := by
  cases h : (Scan.scanLines cancelAt (opening origin lines) 0 lines).2 with
  | some failure =>
    rw [run_of_stopped h]
    exact ⟨[], _, rfl, rfl, (List.append_nil _).symm⟩
  | none =>
    obtain ⟨hrecords, hdiagnostics, _⟩ := resolve_program (scanned origin cancelAt lines)
    obtain ⟨front, rest, hsplit, hpasses⟩ := Resolution.run_passes
      (scanned origin cancelAt lines).program.symbols
      (scanned origin cancelAt lines).program.records.toList
    refine ⟨front, rest, hsplit, ?_, ?_⟩
    · rw [run_of_scanned h, hrecords, hpasses.records]
      rfl
    · rw [run_of_scanned h, hdiagnostics, Array.toList_append, hpasses.diagnostics]
      rfl

/-- Whatever the end of a run, every memory record of the first pass has its place in the program. -/
theorem exists_mem_memory_run {m : Memory}
    (hm : m ∈ (scanned origin cancelAt lines).program.memory) :
    ∃ final ∈ (run origin cancelAt lines).program.memory,
      final.source = m.source ∧ final.address = m.address := by
  obtain ⟨front, rest, hsplit, hrecords, _⟩ := records_run origin cancelAt lines
  rw [Program.memory_eq, hsplit, Record.memoryOf_append, List.mem_append] at hm
  rw [Program.memory_eq, hrecords, Record.memoryOf_append, Record.memoryOf_map_resolved]
  rcases hm with hfront | hrest
  · exact ⟨_, List.mem_append_left _ (List.mem_map_of_mem hfront), m.source_resolved _,
      m.address_resolved _⟩
  · exact ⟨m, List.mem_append_right _ hrest, rfl, rfl⟩

/-- Whatever the end of a run, its program has the symbols of the first pass. -/
theorem symbols_run (origin : UInt16) (cancelAt : Option Nat) (lines : List Text) :
    (run origin cancelAt lines).program.symbols =
      (scanned origin cancelAt lines).program.symbols := by
  cases h : (Scan.scanLines cancelAt (opening origin lines) 0 lines).2 with
  | some failure =>
    rw [run_of_stopped h]
    rfl
  | none => rw [run_of_scanned h, (resolve_program _).2.2.1]

/-- A run that completes has scanned all lines and resolved all records. -/
structure Completed (origin : UInt16) (cancelAt : Option Nat) (lines : List Text) : Prop where
  /-- No line stopped the first pass. -/
  scan : (Scan.scanLines cancelAt (opening origin lines) 0 lines).2 = none
  /-- The records are those of the first pass, all resolved. -/
  records : (run origin cancelAt lines).program.records.toList =
    (scanned origin cancelAt lines).program.records.toList.map
      (Record.resolved (scanned origin cancelAt lines).program.symbols)
  /-- No record was left without a value. -/
  resolves : ∀ record ∈ (scanned origin cancelAt lines).program.records.toList,
    record.unresolved? (scanned origin cancelAt lines).program.symbols = none
  /-- The symbols are those of the first pass. -/
  symbols : (run origin cancelAt lines).program.symbols =
    (scanned origin cancelAt lines).program.symbols

/-- A run without a failure completes. -/
theorem completed_of_failure_eq_none (h : (run origin cancelAt lines).failure = none) :
    Completed origin cancelAt lines := by
  cases hscan : (Scan.scanLines cancelAt (opening origin lines) 0 lines).2 with
  | some failure =>
    rw [run_of_stopped hscan] at h
    exact absurd h (by simp [stopped])
  | none =>
    have hrun := run_of_scanned hscan
    obtain ⟨hrecords, _, _, hfailure, _⟩ := resolve_program (scanned origin cancelAt lines)
    obtain ⟨front, rest, hsplit, hpasses⟩ := Resolution.run_passes
      (scanned origin cancelAt lines).program.symbols
      (scanned origin cancelAt lines).program.records.toList
    have hresult : (Resolution.run (scanned origin cancelAt lines).program.symbols
        (scanned origin cancelAt lines).program.records.toList).records.toList =
      front.map (Record.resolved (scanned origin cancelAt lines).program.symbols) ++ rest :=
      hpasses.records
    rw [hrun] at h
    obtain ⟨hrest, hall⟩ := hpasses.complete (hfailure.mp h)
    rw [hrest, List.append_nil] at hsplit hresult
    exact ⟨hscan, by rw [hrun, hrecords, hresult, hsplit], by rwa [hsplit],
      symbols_run origin cancelAt lines⟩

/-- No program is complete before the end of a run. -/
theorem complete_scanned : (scanned origin cancelAt lines).program.complete = false :=
  stateAfter_invariant (P := fun s => s.program.complete = false) rfl
    (fun hs hstep => hstep.complete.trans hs) _

/-- The program of a run with a failure is not complete. -/
theorem complete_of_failure (h : (run origin cancelAt lines).failure ≠ none) :
    (run origin cancelAt lines).program.complete = false := by
  cases hscan : (Scan.scanLines cancelAt (opening origin lines) 0 lines).2 with
  | some failure =>
    rw [run_of_stopped hscan]
    exact complete_scanned
  | none =>
    rw [run_of_scanned hscan] at h ⊢
    rw [(resolve_program _).2.2.2.2 h]
    exact complete_scanned

/-- A program is complete only when its run had no failure. -/
theorem completed_of_complete (h : (run origin cancelAt lines).program.complete = true) :
    Completed origin cancelAt lines := by
  cases hfailure : (run origin cancelAt lines).failure with
  | none => exact completed_of_failure_eq_none hfailure
  | some failure =>
    rw [complete_of_failure (by simp [hfailure])] at h
    exact absurd h (by decide)

/-- A program that can be emitted comes of a run that completes. -/
theorem completed_of_isEmittable (h : (run origin cancelAt lines).program.isEmittable = true) :
    Completed origin cancelAt lines := by
  obtain ⟨hboth, _⟩ := Bool.and_eq_true_iff.mp h
  exact completed_of_complete (Bool.and_eq_true_iff.mp hboth).1

/-- A run that completes has a record for each line. -/
theorem Completed.length_records (h : Completed origin cancelAt lines) :
    (run origin cancelAt lines).program.records.toList.length = lines.length := by
  rw [h.records, List.length_map, Array.length_toList]
  exact size_records_stateAfter (scanLines_take_length h.scan) (Nat.le_refl _) (Nat.le_refl _)

/-- Every record of a run that completes stands on its line. -/
theorem Completed.parse_record (h : Completed origin cancelAt lines) {k : Nat} {r : Record}
    (hr : (run origin cancelAt lines).program.records.toList[k]? = some r) :
    ∃ hk : k < lines.length, SourceLine.parse (k + 1) lines[k] = .ok r.source := by
  rw [h.records, List.getElem?_map, Option.map_eq_some_iff] at hr
  obtain ⟨first, hfirst, rfl⟩ := hr
  obtain ⟨hk, source, hparse, hstep, hpush⟩ :=
    record_of_line (scanLines_take_length h.scan) (Nat.le_refl _) hfirst
  obtain ⟨added, hsource, hadded⟩ := hstep.records
  rw [hadded, Array.push_eq_push] at hpush
  refine ⟨hk, ?_⟩
  rw [hparse, Record.source_resolved, ← hpush.1, hsource]

/-- The memory records of a run that completes are those of the first pass, all resolved. -/
theorem Completed.memory (h : Completed origin cancelAt lines) :
    (run origin cancelAt lines).program.memory =
      (scanned origin cancelAt lines).program.memory.map
        (Memory.resolved (scanned origin cancelAt lines).program.symbols) := by
  rw [Program.memory_eq, h.records, Record.memoryOf_map_resolved, Program.memory_eq]

/-- No memory record of a run that completes was left without a value. -/
theorem Completed.resolves_memory (h : Completed origin cancelAt lines) {m : Memory}
    (hm : m ∈ (scanned origin cancelAt lines).program.memory) :
    m.unresolved? (scanned origin cancelAt lines).program.symbols = none :=
  h.resolves (.memory m) (Program.mem_memory.mp hm)

/-- An instruction of the first pass that could be resolved is encoded with a value of its
operand. -/
theorem encoded_of_resolved {m : Memory} {table : SymbolTable} {i : Instruction}
    (hm : m ∈ (scanned origin cancelAt lines).program.memory)
    (hok : m.unresolved? table = none) (hresolved : m.resolved table = .instruction i) :
    ∃ value, i.encoding = i.encodingOf value := by
  obtain ⟨s, source, become⟩ := becomes_of_mem_memory hm
  cases become with
  | checksum => simp [Memory.resolved] at hresolved
  | instruction hcreate =>
    rename_i j
    obtain rfl := Memory.instruction.inj hresolved
    cases hp : j.isPending with
    | true =>
      obtain ⟨value, _, hvalue⟩ := Instruction.resolve_ok hp hok
      rw [hvalue]
      exact ⟨value, rfl⟩
    | false =>
      obtain ⟨value, _, hvalue⟩ := Instruction.create?_settled hcreate hp
      rw [Instruction.resolve_of_not_pending _ hp]
      exact ⟨value, hvalue⟩

/-- Every instruction of a run that completes is encoded with a value of its operand. -/
theorem Completed.encoded (h : Completed origin cancelAt lines) {i : Instruction}
    (hi : .instruction i ∈ (run origin cancelAt lines).program.memory) :
    ∃ value, i.encoding = i.encodingOf value := by
  rw [h.memory, List.mem_map] at hi
  obtain ⟨m, hm, hresolved⟩ := hi
  exact encoded_of_resolved hm (h.resolves_memory hm) hresolved

end Assembly

end ColumnAssembler
