import ColumnAssembler.Proofs.FirstPassState
import ColumnAssembler.Proofs.Renumbering

/-!
# Runs that are stopped in the first pass

A run that is stopped at a line has seen the lines up to there and no more, so the error and the
program it returns are the same whatever follows. What the line itself leaves behind depends on why
it fails. A run that is called off, a line that cannot be read and an unknown mnemonic leave
nothing. A directive is recorded before its operand is looked at, so a bad operand leaves the record
and nothing else. Only running out of room is found when the line has taken its full effect.
-/

namespace ColumnAssembler

/-- The line at which a run was stopped. -/
def Failure.line : Failure → Int
  | fatal e => e.line
  | canceled line => line

/-- The program with a record added. -/
def Program.addRecord (p : Program) : Record → Program
  | .directive d => p.addDirective d
  | .memory m => p.addMemory m

namespace Scan

/-- The same state, but for what was told. -/
structure Same (s t : Scan) : Prop where
  /-- All but the records and what was told is the same. -/
  alike : Alike id s t
  /-- The records are the same, directives included. -/
  records : t.program.records = s.program.records

namespace Same

variable {s t : Scan}

/-- The same state has the same program. -/
theorem program (h : Same s t) : t.program = s.program := by
  have hdiagnostics : t.program.diagnostics = s.program.diagnostics := by
    rw [← Array.toList_inj, h.alike.diagnostics]
    exact List.map_id _
  exact Program.eq_of_records h.alike.origin h.records h.alike.symbols hdiagnostics
    h.alike.complete

/-- A line adds the same record to both. -/
theorem record? (h : Same s t) (source : SourceLine) : t.record? source = s.record? source := by
  unfold Scan.record?
  rw [h.alike.address, h.alike.symbols, h.alike.checksumStart, h.alike.size_memoryIndices]

/-- A line that could be read does the same to both. -/
theorem scanSource (h : Same s t) (source : SourceLine) :
    Same (s.scanSource source).1 (t.scanSource source).1 ∧
      (t.scanSource source).2 = (s.scanSource source).2 := by
  obtain ⟨halike, hfault⟩ := h.alike.scanSource source
  refine ⟨⟨halike, ?_⟩, hfault⟩
  rw [← Array.toList_inj, records_scanSource, records_scanSource, h.records, h.record?]

/-- A line does the same to both. -/
theorem scanLine (h : Same s t) (number : Int) (line : Text) :
    Same (s.scanLine number line).1 (t.scanLine number line).1 ∧
      (t.scanLine number line).2 = (s.scanLine number line).2 := by
  cases hparse : SourceLine.parse number line with
  | error cause =>
    rw [scanLine_of_error hparse, scanLine_of_error hparse]
    exact ⟨h, rfl⟩
  | ok source =>
    obtain ⟨hnext, hfault⟩ := h.scanSource source
    rw [scanLine_of_parse hparse, scanLine_of_parse hparse]
    dsimp only
    rw [hfault]
    exact ⟨hnext, rfl⟩

/-- A pass over lines does the same to both. -/
theorem scanLines (h : Same s t) (cancelAt : Option Nat) (count : Nat) (lines : List Text) :
    Same (Scan.scanLines cancelAt s count lines).1 (Scan.scanLines cancelAt t count lines).1 ∧
      (Scan.scanLines cancelAt t count lines).2 = (Scan.scanLines cancelAt s count lines).2 := by
  induction lines generalizing s t count with
  | nil => exact ⟨h, rfl⟩
  | cons line rest ih =>
    obtain ⟨hnext, hfailed⟩ := h.scanLine (count + 1) line
    rw [Scan.scanLines, Scan.scanLines]
    split
    · exact ⟨h, rfl⟩
    · cases hs : s.scanLine (count + 1) line with
      | mk next error =>
        cases ht : t.scanLine (count + 1) line with
        | mk next' error' =>
          rw [hs, ht] at hnext hfailed
          obtain rfl : error' = error := hfailed
          cases error' with
          | some e => exact ⟨hnext, rfl⟩
          | none => exact ih hnext (count + 1)

end Same

/-- A pass is stopped at one of its lines. -/
theorem line_of_failed {cancelAt : Option Nat} {s : Scan} {count : Nat} {lines : List Text}
    {failure : Failure} (h : (scanLines cancelAt s count lines).2 = some failure) :
    (count : Int) < failure.line ∧ failure.line ≤ (count : Int) + lines.length := by
  induction lines generalizing s count with
  | nil => simp [scanLines] at h
  | cons line rest ih =>
    rw [List.length_cons]
    rw [scanLines] at h
    split at h
    · rw [Option.some.injEq] at h
      rw [← h, Failure.line]
      omega
    · split at h
      · next next e hline =>
        have hnumber : e.line = count + 1 := by
          cases hparse : SourceLine.parse (count + 1) line with
          | error cause =>
            rw [scanLine_of_error hparse, Prod.mk.injEq, Option.some.injEq] at hline
            rw [← hline.2]
          | ok source =>
            rw [scanLine_of_parse hparse, Prod.mk.injEq, Option.map_eq_some_iff] at hline
            obtain ⟨_, fault, _, hfault⟩ := hline
            rw [← hfault]
        rw [Option.some.injEq] at h
        rw [← h, Failure.line, hnumber]
        omega
      · have hlater := ih h
        omega

/-- A pass that is stopped does not depend on the lines after the one that stops it. -/
theorem scanLines_append_of_failed {cancelAt : Option Nat} {s : Scan} {count : Nat}
    {earlier : List Text} {failure : Failure}
    (h : (scanLines cancelAt s count earlier).2 = some failure) (later : List Text) :
    scanLines cancelAt s count (earlier ++ later) = scanLines cancelAt s count earlier := by
  have hpair : scanLines cancelAt s count earlier =
      ((scanLines cancelAt s count earlier).1, some failure) := by rw [← h]
  rw [scanLines_append, hpair]

/-- A pass that is stopped at the line behind some lines went through these, and is stopped by that
line whatever follows it. -/
theorem failed_at {cancelAt : Option Nat} {s : Scan} {earlier later : List Text} {line : Text}
    {failure : Failure}
    (h : (scanLines cancelAt s 0 (earlier ++ [line] ++ later)).2 = some failure)
    (hline : failure.line = earlier.length + 1) :
    (scanLines cancelAt s 0 earlier).2 = none ∧
      (scanLines cancelAt s 0 (earlier ++ [line])).2 = some failure := by
  have hstopped : (scanLines cancelAt s 0 (earlier ++ [line])).2 = some failure := by
    rw [scanLines_append] at h
    split at h
    · next hearly => rw [hearly, h]
    · have hlate := (line_of_failed h).1
      rw [hline, List.length_append, List.length_singleton] at hlate
      omega
  refine ⟨?_, hstopped⟩
  cases hearlier : (scanLines cancelAt s 0 earlier).2 with
  | none => rfl
  | some other =>
    rw [scanLines_append_of_failed hearlier, hearlier, Option.some.injEq] at hstopped
    have hearly := (line_of_failed hearlier).2
    rw [hstopped, hline] at hearly
    omega

/-- A state without room is at fault for that. -/
theorem kind_of_limitFault? {s : Scan} {fault : Fault} (h : s.limitFault? = some fault) :
    fault.kind = .resourceExhausted := by
  have hkind := s.limitFault?_kind
  rw [h] at hkind
  exact beq_iff_eq.mp hkind

/-- Moving the start of the program to an address leaves room. -/
theorem room_moveTo {s : Scan} (hroom : s.limitFault? = none) {value : Int64}
    (hvalue : value.toInt ≤ 0xFFFF) : (s.moveTo value).limitFault? = none := by
  have hsymbols := symbols_le_of_room hroom
  have haddress : ¬ Fault.maxAddress < (s.moveTo value).address :=
    Nat.not_lt.mpr (Int.toNat_le.mpr hvalue)
  have hfew : (s.moveTo value).program.symbols.isExceeded = false :=
    decide_eq_false (Nat.not_lt.mpr hsymbols)
  rw [limitFault?, if_neg haddress, hfew, if_neg Bool.false_ne_true]

/-- Why a line with room before it fails, and what it leaves behind. -/
inductive Failed (s : Scan) (source : SourceLine) (fault : Fault) : Prop where
  /-- An unknown mnemonic leaves nothing. -/
  | mnemonic (kind : fault.kind = .unknownOpcode) (state : (s.scanSource source).1 = s)
  /-- A directive with a bad operand leaves its record. -/
  | operand (kind : fault.kind = .badOperand)
      (lineClass : source.classify = .origin ∨ source.classify = .constant)
      (state : (s.scanSource source).1 = s.addDirective source)
  /-- A line that runs out of room has its record, and has not moved the start. -/
  | room (kind : fault.kind = .resourceExhausted)
      (origin : (s.scanSource source).1.program.origin = s.program.origin)
      (step : Step s source (s.scanSource source).1)

/-- A line that sets the start address fails for its operand only. -/
theorem failed_origin {s : Scan} {source : SourceLine} {fault : Fault}
    (hroom : s.limitFault? = none) (hclass : source.classify = .origin)
    (h : (s.scanSource source).2 = some fault) : Failed s source fault := by
  have hscan : s.scanSource source = (s.addDirective source).setOrigin source := by
    rw [scanSource, hclass]
  cases hemitted : (s.addDirective source).emitted with
  | true =>
    rw [hscan, setOrigin, hemitted, if_pos rfl] at h
    have hsame : s.limitFault? = some fault := h
    rw [hroom] at hsame
    exact absurd hsame (by simp)
  | false =>
    cases hvalue : (s.addDirective source).argument source.operand with
    | ok value =>
      rw [hscan, setOrigin, hemitted, if_neg Bool.false_ne_true, hvalue] at h
      have hmoved : ((s.addDirective source).moveTo value).limitFault? = none :=
        room_moveTo (s := s.addDirective source) hroom (argument_range hvalue).2
      exact absurd (h.symm.trans hmoved) (by simp)
    | error other =>
      rw [hscan, setOrigin, hemitted, if_neg Bool.false_ne_true, hvalue] at h
      obtain rfl : other = fault := Option.some.inj h
      refine .operand (argument_kind hvalue) (Or.inl hclass) ?_
      rw [hscan, setOrigin, hemitted, if_neg Bool.false_ne_true, hvalue]

/-- A constant fails for its name or its operand, or because there are too many. -/
theorem failed_constant {s : Scan} {source : SourceLine} {fault : Fault}
    (hroom : s.limitFault? = none) (hclass : source.classify = .constant)
    (h : (s.scanSource source).2 = some fault) : Failed s source fault := by
  have hscan : s.scanSource source = (s.addDirective source).defineConstant source := by
    rw [scanSource, hclass]
  have hstep : Step s source (s.scanSource source).1 := by
    rw [hscan]
    exact .directive (directiveStep_defineConstant s source)
  unfold defineConstant at hscan
  split at hscan
  · rw [hscan, Option.some.injEq] at h
    rw [← h]
    exact .operand rfl (Or.inr hclass) (by rw [hscan])
  · split at hscan
    · have hsame : s.limitFault? = some fault := by
        rw [hscan] at h
        exact h
      rw [hroom] at hsame
      exact absurd hsame (by simp)
    · split at hscan
      · next other hvalue =>
        rw [hscan, Option.some.injEq] at h
        rw [← h]
        exact .operand (argument_kind hvalue) (Or.inr hclass) (by rw [hscan])
      · next value _ =>
        refine .room ?_ ?_ hstep
        · rw [hscan] at h
          exact kind_of_limitFault? h
        · rw [hscan]
          have hframe := frame_define (s.addDirective source) source.label (wordOf value)
            source.number
          exact hframe.origin

/-- All the ways in which a line that could be read fails. -/
theorem scanSource_failed {s : Scan} {source : SourceLine} {fault : Fault}
    (hroom : s.limitFault? = none) (h : (s.scanSource source).2 = some fault) :
    Failed s source fault := by
  cases hclass : source.classify with
  | comment | finish =>
    rw [scanSource, hclass] at h
    have hsame : s.limitFault? = some fault := h
    rw [hroom] at hsame
    exact absurd hsame (by simp)
  | origin => exact failed_origin hroom hclass h
  | constant => exact failed_constant hroom hclass h
  | checksum =>
    have hscan : s.scanSource source = (s.addChecksum source).checked := by rw [scanSource, hclass]
    have hadded := memoryStep_addChecksum s source
    rw [hscan] at h
    refine .room (kind_of_limitFault? h) ?_ ?_
    · rw [hscan]
      exact hadded.origin
    · rw [hscan]
      exact .memory _ .checksum hadded
  | instruction =>
    cases hcreate : Instruction.create? source (UInt16.ofNat s.address) s.program.symbols with
    | none =>
      have hscan : s.scanSource source = (s, some (.unknownOpcode source.mnemonic)) := by
        rw [scanSource, hclass]
        dsimp only
        rw [hcreate]
      rw [hscan, Option.some.injEq] at h
      rw [← h]
      exact .mnemonic rfl (by rw [hscan])
    | some i =>
      have hscan : s.scanSource source = (s.addMemory (.instruction i)).checked := by
        rw [scanSource, hclass]
        dsimp only
        rw [hcreate]
      have hadded := memoryStep_addMemory s i
      rw [hscan] at h
      refine .room (kind_of_limitFault? h) ?_ ?_
      · rw [hscan]
        exact hadded.origin
      · rw [hscan]
        exact .memory _ (.instruction hcreate) hadded

/-- The program with all that a line adds to it: its record, its symbol and its diagnostics. -/
def withLine (s : Scan) (source : SourceLine) (r : Record) : Program :=
  { s.program.addRecord r with
    symbols := ⟨s.program.symbols.symbols ++ s.newSymbols source⟩
    diagnostics := s.program.diagnostics ++ (s.duplicates source ++ s.markers source).toArray }

/-- A line that runs out of room has added all that it can. -/
theorem program_of_step {s : Scan} {source : SourceLine}
    (horigin : (s.scanSource source).1.program.origin = s.program.origin)
    (hstep : Step s source (s.scanSource source).1) :
    ∃ r, s.record? source = some r ∧ (s.scanSource source).1.program = s.withLine source r := by
  obtain ⟨r, hr⟩ := record?_of_step hstep
  have hadds := adds_scanSource s source
  have hrecords : (s.scanSource source).1.program.records = s.program.records.push r := by
    rw [← Array.toList_inj, records_scanSource, hr, Array.toList_push]
    rfl
  have hsymbols : (s.scanSource source).1.program.symbols =
      ⟨s.program.symbols.symbols ++ s.newSymbols source⟩ :=
    congrArg SymbolTable.mk hadds.symbols
  have hdiagnostics : (s.scanSource source).1.program.diagnostics =
      s.program.diagnostics ++ (s.duplicates source ++ s.markers source).toArray := by
    rw [← Array.toList_inj, hadds.diagnostics, Array.toList_append]
  refine ⟨r, hr, ?_⟩
  cases r with
  | directive d =>
    exact Program.eq_of_records horigin hrecords hsymbols hdiagnostics hstep.complete
  | memory m =>
    exact Program.eq_of_records horigin hrecords hsymbols hdiagnostics hstep.complete

/-- What a line that stops the pass leaves of the program, given the state before it. -/
def Leaves (s : Scan) (line : Text) (failure : Failure) (program : Program) : Prop :=
  match failure with
  | .canceled _ => program = s.program
  | .fatal e =>
    match e.fault.kind with
    | .lineTooLong | .unknownOpcode => program = s.program
    | .badOperand => ∃ source, SourceLine.parse e.line line = .ok source ∧
        (source.classify = .origin ∨ source.classify = .constant) ∧
        program = s.program.addDirective ⟨source, source.classify⟩
    | .resourceExhausted => ∃ source r, SourceLine.parse e.line line = .ok source ∧
        s.record? source = some r ∧ program = s.withLine source r

/-- What a line leaves when the pass stops there. -/
theorem leaves_scanLine {s t : Scan} {number : Int} {line : Text} {e : FatalError}
    (hroom : s.limitFault? = none) (h : s.scanLine number line = (t, some e)) :
    s.Leaves line (.fatal e) t.program := by
  cases hparse : SourceLine.parse number line with
  | error cause =>
    rw [scanLine_of_error hparse, Prod.mk.injEq, Option.some.injEq] at h
    rw [← h.1, ← h.2]
    rfl
  | ok source =>
    rw [scanLine_of_parse hparse, Prod.mk.injEq, Option.map_eq_some_iff] at h
    obtain ⟨hstate, fault, hfault, rfl⟩ := h
    rw [← hstate, Leaves]
    dsimp only
    cases scanSource_failed hroom hfault with
    | mnemonic kind state =>
      rw [kind, state]
    | operand kind lineClass state =>
      rw [kind, state]
      exact ⟨source, hparse, lineClass, rfl⟩
    | room kind origin step =>
      rw [kind]
      obtain ⟨r, hr, hprogram⟩ := program_of_step origin step
      exact ⟨source, r, hparse, hr, hprogram⟩

/-- What one line leaves when a pass stops there, or before it because it was called off. -/
theorem leaves_scanLines {cancelAt : Option Nat} {s : Scan} {count : Nat} {line : Text}
    {failure : Failure} (hroom : s.limitFault? = none)
    (h : (scanLines cancelAt s count [line]).2 = some failure) :
    s.Leaves line failure (scanLines cancelAt s count [line]).1.program := by
  rw [scanLines] at h ⊢
  split at h
  · next hcanceled =>
    rw [if_pos hcanceled, ← Option.some.inj h]
    rfl
  · next hgo =>
    rw [if_neg hgo]
    split at h
    · next next e hline =>
      rw [← Option.some.inj h]
      exact leaves_scanLine hroom hline
    · simp [scanLines] at h

end Scan

namespace Assembly

variable {origin : UInt16} {cancelAt : Option Nat}

/-- The first pass over some lines is the same with other lines announced. -/
theorem same_opening (origin : UInt16) (lines others : List Text) :
    Scan.Same (opening origin lines) (opening origin others) :=
  ⟨alike_opening id origin lines others, rfl⟩

/-- A run that ends in the first pass was stopped there. -/
theorem scanLines_of_stage {lines : List Text}
    (hstage : (run origin cancelAt lines).stage = .scanning) :
    (Scan.scanLines cancelAt (opening origin lines) 0 lines).2 =
      (run origin cancelAt lines).failure := by
  cases hscan : (Scan.scanLines cancelAt (opening origin lines) 0 lines).2 with
  | some failure => rw [run_of_stopped hscan, stopped]
  | none =>
    rw [run_of_scanned hscan, resolve] at hstage
    split at hstage <;> simp [stopped, finish] at hstage

/-- A run whose first pass is stopped by some lines returns what that pass has come to, whatever
lines follow. -/
theorem run_append_of_failed {earlier others : List Text} {failure : Failure}
    (h : (Scan.scanLines cancelAt (opening origin others) 0 earlier).2 = some failure)
    (later : List Text) :
    (run origin cancelAt (earlier ++ later)).failure = some failure ∧
      (run origin cancelAt (earlier ++ later)).stage = .scanning ∧
      (run origin cancelAt (earlier ++ later)).program =
        (Scan.scanLines cancelAt (opening origin others) 0 earlier).1.program := by
  obtain ⟨hsame, hfailed⟩ :=
    (same_opening origin others (earlier ++ later)).scanLines cancelAt 0 earlier
  rw [h] at hfailed
  have hwhole := Scan.scanLines_append_of_failed hfailed later
  have hstopped : (Scan.scanLines cancelAt (opening origin (earlier ++ later)) 0
      (earlier ++ later)).2 = some failure := by
    rw [hwhole, hfailed]
  rw [run_of_stopped hstopped]
  refine ⟨rfl, rfl, ?_⟩
  rw [stopped, scanned_eq, hwhole]
  exact hsame.program

/-- What the line behind some lines leaves when a pass that went through these is stopped by it. -/
theorem leaves_of_failed {pre : List Text} {line : Text} {failure : Failure}
    (hpre : (Scan.scanLines cancelAt (opening origin pre) 0 pre).2 = none)
    (h : (Scan.scanLines cancelAt (opening origin pre) 0 (pre ++ [line])).2 = some failure) :
    (scanned origin cancelAt pre).Leaves line failure
      (Scan.scanLines cancelAt (opening origin pre) 0 (pre ++ [line])).1.program := by
  have hpair : Scan.scanLines cancelAt (opening origin pre) 0 pre =
      (scanned origin cancelAt pre, none) := by
    rw [scanned_eq, ← hpre]
  have hroom : (scanned origin cancelAt pre).limitFault? = none :=
    room_stateAfter (scanLines_take_length hpre)
  rw [Scan.scanLines_append, hpair] at h ⊢
  exact Scan.leaves_scanLines hroom h

/-- A run that is stopped at a line of the first pass, or called off before it, returns the same
error and the same program, neither complete nor emittable, whatever lines follow. A run that is
called off, a line that is too long and an unknown mnemonic leave the program as it was after the
lines before; a bad operand leaves the record of its directive besides; a line that runs out of room
leaves all that it adds. -/
theorem aborted_run_is_prefix_determined (origin : UInt16) (cancelAt : Option Nat)
    (pre post : List Text) (line : Text) {failure : Failure}
    (hstage : (run origin cancelAt (pre ++ [line] ++ post)).stage = .scanning)
    (hfailure : (run origin cancelAt (pre ++ [line] ++ post)).failure = some failure)
    (hline : failure.line = pre.length + 1) :
    (∀ later : List Text,
      (run origin cancelAt (pre ++ [line] ++ later)).failure = some failure ∧
      (run origin cancelAt (pre ++ [line] ++ later)).program =
        (run origin cancelAt (pre ++ [line] ++ post)).program ∧
      (run origin cancelAt (pre ++ [line] ++ later)).stage = .scanning ∧
      (run origin cancelAt (pre ++ [line] ++ later)).program.complete = false ∧
      (run origin cancelAt (pre ++ [line] ++ later)).program.isEmittable = false) ∧
    (scanned origin cancelAt pre).Leaves line failure
      (run origin cancelAt (pre ++ [line] ++ post)).program := by
  have hscan := scanLines_of_stage hstage
  rw [hfailure] at hscan
  obtain ⟨hpre, hstopped⟩ := Scan.failed_at hscan hline
  -- From here on the pass is the one over the lines before, with no others announced.
  have hopening := same_opening origin (pre ++ [line] ++ post) pre
  have hthrough := (hopening.scanLines cancelAt 0 pre).2.trans hpre
  have hended := (hopening.scanLines cancelAt 0 (pre ++ [line])).2.trans hstopped
  have hprogram := (run_append_of_failed hended post).2.2
  constructor
  · intro later
    obtain ⟨hsame, hscanning, hleft⟩ := run_append_of_failed hended later
    have hcomplete : (run origin cancelAt (pre ++ [line] ++ later)).program.complete = false :=
      complete_of_failure (by rw [hsame]; simp)
    refine ⟨hsame, hleft.trans hprogram.symm, hscanning, hcomplete, ?_⟩
    rw [Program.isEmittable, hcomplete, Bool.false_and, Bool.false_and]
  · rw [hprogram]
    exact leaves_of_failed hthrough hended

/-- A constant with a name that is not defined leaves its record and no symbol, with or without a
line behind it. An instruction over the last address leaves its record and its label. -/
theorem aborted_run_is_prefix_determined_constant_and_overrun :
    (let pre := [Text.ascii "START   NOP"]
      let line := Text.ascii "LATE    EQU  NOWHERE"
      let post := [Text.ascii "        JMP  START"]
      let name := Text.ascii "NOWHERE"
      let failure : Failure := .fatal ⟨2, .argument name (.operand name (.notNumber name 10))⟩
      let stopped := run 0x8000 none (pre ++ [line] ++ post)
      stopped.stage = .scanning ∧ stopped.failure = some failure ∧
        (run 0x8000 none (pre ++ [line] ++ [])).program = stopped.program ∧
        (scanned 0x8000 none pre).Leaves line failure stopped.program ∧
        stopped.program.records.size = 2 ∧
        stopped.program.symbols.symbols = [⟨Text.ascii "START", 0x8000⟩]) ∧
      let pre := [Text.ascii "        ORG  $FFFF"]
      let line := Text.ascii "LAST    LDA  $1234"
      let failure : Failure := .fatal ⟨2, .addressExceeded 0x10002⟩
      let stopped := run 0x8000 none (pre ++ [line] ++ [])
      stopped.stage = .scanning ∧ stopped.failure = some failure ∧
        (scanned 0x8000 none pre).Leaves line failure stopped.program ∧
        stopped.program.records.size = 2 ∧
        stopped.program.symbols.symbols = [⟨Text.ascii "LAST", 0xFFFF⟩] := by
  constructor
  · intro pre line post name failure stopped
    have hstage : stopped.stage = .scanning := by decide +kernel
    have hfailure : stopped.failure = some failure := by decide +kernel
    obtain ⟨hsame, hleaves⟩ :=
      aborted_run_is_prefix_determined 0x8000 none pre post line hstage hfailure rfl
    exact ⟨hstage, hfailure, (hsame []).2.1, hleaves, by decide +kernel, by decide +kernel⟩
  · intro pre line failure stopped
    have hstage : stopped.stage = .scanning := by decide +kernel
    have hfailure : stopped.failure = some failure := by decide +kernel
    have hleaves :=
      (aborted_run_is_prefix_determined 0x8000 none pre [] line hstage hfailure rfl).2
    exact ⟨hstage, hfailure, hleaves, by decide +kernel, by decide +kernel⟩

end Assembly

end ColumnAssembler
