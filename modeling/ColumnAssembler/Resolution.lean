import ColumnAssembler.Scan

/-!
# Forward references

The second pass. Instructions whose operand had no value when they were read are resolved with the
final symbols, in order; the records between them stay as they are. The pass stops at the first
operand that still has no value, and the records after it stay as they are.
-/

namespace ColumnAssembler

/-- The state between two records of the second pass. -/
structure Resolution where
  /-- The records passed so far. -/
  records : Array Record
  /-- The errors found in this pass. -/
  diagnostics : Array Diagnostic
  /-- The number of instructions resolved. -/
  resolved : Nat
  /-- The error that stopped the pass. -/
  failure : Option FatalError
  deriving DecidableEq, Repr

namespace Resolution

/-- The state before the first record. -/
def start : Resolution := ⟨#[], #[], 0, none⟩

/-- Pass a record without a change. -/
def keep (r : Resolution) (record : Record) : Resolution :=
  { r with records := r.records.push record }

/-- Resolve a pending instruction and pass it. -/
def resolve (table : SymbolTable) (r : Resolution) (i : Instruction) : Resolution :=
  match i.resolve table with
  | (next, some e) =>
    { r.keep (.memory (.instruction next)) with failure := some ⟨i.source.number, .unresolved e⟩ }
  | (next, none) =>
    let record := Record.memory (.instruction next)
    { r.keep record with
      diagnostics := r.diagnostics ++ (Diagnostic.ofRecord? record).toArray
      resolved := r.resolved + 1 }

/-- Pass a record: a pending instruction is resolved unless the pass has stopped. -/
def step (table : SymbolTable) (r : Resolution) (record : Record) : Resolution :=
  match record with
  | .memory (.instruction i) =>
    if i.isPending && r.failure.isNone then r.resolve table i else r.keep record
  | _ => r.keep record

/-- Pass all records. -/
def run (table : SymbolTable) (records : List Record) : Resolution :=
  records.foldl (step table) start

/-- A record is passed as one of its kind. -/
theorem kinds_step (table : SymbolTable) (r : Resolution) (record : Record) :
    (step table r record).records.toList.map (fun r => r.memory?.isSome) =
      r.records.toList.map (fun r => r.memory?.isSome) ++ [record.memory?.isSome] := by
  have hpush : ∀ next : Record, next.memory?.isSome = record.memory?.isSome →
      (r.records.push next).toList.map (fun r => r.memory?.isSome) =
        r.records.toList.map (fun r => r.memory?.isSome) ++ [record.memory?.isSome] := by
    intro next hkind
    rw [Array.toList_push, List.map_append, List.map_singleton, hkind]
  unfold step
  split
  · split
    · unfold resolve
      split <;> exact hpush _ rfl
    · exact hpush _ rfl
  · exact hpush _ rfl

/-- The second pass leaves the memory records at their positions. -/
theorem memoryIndices_run (table : SymbolTable) (records : List Record) :
    Record.memoryIndices (run table records).records.toList = Record.memoryIndices records := by
  have hkinds : ∀ (r : Resolution),
      (records.foldl (step table) r).records.toList.map (fun r => r.memory?.isSome) =
        r.records.toList.map (fun r => r.memory?.isSome) ++
          records.map fun r => r.memory?.isSome := by
    induction records with
    | nil => exact fun r => (List.append_nil _).symm
    | cons record rest ih =>
      intro r
      rw [List.foldl_cons, ih, kinds_step, List.append_assoc]
      rfl
  exact Record.memoryIndices_congr (hkinds start)

end Resolution

namespace Scan

/-- The state with the records and diagnostics of the second pass. -/
def withResolution (s : Scan) (r : Resolution)
    (h : Record.memoryIndices r.records.toList =
      Record.memoryIndices s.program.records.toList) : Scan :=
  { s with
    program := { s.program.withRecords r.records h with
      diagnostics := s.program.diagnostics ++ r.diagnostics }
    events := s.events ++ r.diagnostics.map Event.diagnostic }

end Scan

end ColumnAssembler
