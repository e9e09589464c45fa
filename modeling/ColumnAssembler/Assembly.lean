import ColumnAssembler.Resolution

/-!
# Assembly

The whole run over a list of source lines: the first pass reads the lines, the second resolves
forward references, and then the program is complete. A run that fails keeps what it had so far
and stays in the stage that failed.
-/

namespace ColumnAssembler

/-- The stages of a run. -/
inductive Stage where
  /-- Lines are read and symbols collected. -/
  | scanning
  /-- Forward references are resolved. -/
  | resolving
  /-- The program can be listed and written. -/
  | ready
  deriving DecidableEq, Repr

namespace Stage

/-- The stage with the given number. -/
def ofCode? : Int → Option Stage
  | 0 => some scanning
  | 1 => some resolving
  | 2 => some ready
  | _ => none

/-- The name of a stage. -/
def name : Stage → Text
  | scanning => Text.ascii "scanning"
  | resolving => Text.ascii "resolving"
  | ready => Text.ascii "ready"

/-- The name of the stage with the given number. -/
def nameOfCode (code : Int) : Text :=
  match ofCode? code with
  | some stage => stage.name
  | none => Numeral.unnamed "State" code

end Stage

/-- The result of a run. -/
structure Outcome where
  /-- The program, in part when the run failed. -/
  program : Program
  /-- The stage in which the run ended. -/
  stage : Stage
  /-- Why the run ended early. -/
  failure : Option Failure
  /-- What the run told. -/
  events : Array Event
  deriving DecidableEq, Repr

namespace Assembly

/-- The start address of a program without a directive for it. -/
def defaultOrigin : UInt16 := 0x8000

/-- Tell that a stage begins. -/
def enter (s : Scan) (earlier later : Stage) : Scan :=
  s.log .debug "State transition" [("from", .text earlier.name), ("to", .text later.name)]

/-- The result of a run that failed in a stage. -/
def stopped (s : Scan) (stage : Stage) (failure : Failure) : Outcome :=
  ⟨s.program, stage, some failure, s.events⟩

/-- The end of a run in which all forward references were resolved. -/
def finish (s : Scan) (resolved : Nat) : Outcome :=
  let told := enter (s.log .debug "Forward references resolved" [("count", .number resolved)])
    .resolving .ready
  let program := { told.program with complete := true }
  let last := told.log .debug "Assembly finished"
    [("bytes", .number program.size), ("symbols", .number program.symbols.size),
      ("errors", .number program.errorCount)]
  ⟨program, .ready, none, last.events⟩

/-- The second pass and the end of the run. -/
def resolve (s : Scan) : Outcome :=
  let entered := enter s .scanning .resolving
  let r := Resolution.run s.program.symbols s.program.records.toList
  let next := entered.withResolution r (Resolution.memoryIndices_run ..)
  match r.failure with
  | some e => stopped next .resolving (.fatal e)
  | none => finish next r.resolved

/-- Assemble source lines from a start address. The run may be called off once the given number of
lines has been read. -/
def run (origin : UInt16) (cancelAt : Option Nat) (lines : List Text) : Outcome :=
  let first := (Scan.start origin).log .debug "Starting pass 1"
    [("lines", .number lines.length), ("origin", .address origin)]
  match Scan.scanLines cancelAt first 0 lines with
  | (s, some failure) => stopped s .scanning failure
  | (s, none) => resolve s

end Assembly

end ColumnAssembler
