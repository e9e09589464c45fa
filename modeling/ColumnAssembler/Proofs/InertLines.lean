import ColumnAssembler.ObjectFile
import ColumnAssembler.Proofs.FirstPassState
import ColumnAssembler.Proofs.Renumbering

/-!
# Lines that do nothing

Comments and end marks may be put anywhere in a source without an effect but on the numbers of the
lines behind them. In the first pass such a line adds a directive, and a state with one more
directive is alike to the one without; so the two passes go through alike states and stop, if they
do, at corresponding lines. The second pass is a matter of the memory records alone (`Memory.pass`),
and these differ in their numbers only.
-/

namespace ColumnAssembler

/-- The failure with its line number changed. -/
def Failure.renumber (f : Int → Int) : Failure → Failure
  | fatal e => fatal (e.renumber f)
  | canceled line => canceled (f line)

namespace Memory

/-- What the second pass makes of memory records. -/
structure Passed where
  /-- The records afterwards. -/
  memory : List Memory
  /-- The errors found, in order. -/
  diagnostics : List Diagnostic
  /-- The error that stopped the pass. -/
  failure : Option FatalError

/-- The result with the numbers of the lines changed. -/
def Passed.renumber (f : Int → Int) (p : Passed) : Passed where
  memory := p.memory.map (Memory.renumber f)
  diagnostics := p.diagnostics.map (Diagnostic.renumber f)
  failure := p.failure.map (FatalError.renumber f)

/-- The diagnostic that the second pass finds for a memory record. -/
def lateDiagnostic? (table : SymbolTable) (m : Memory) : Option Diagnostic :=
  (Record.memory m).lateDiagnostic? table

/-- The second pass on memory records: each is resolved in turn, up to the first that cannot be. -/
def pass (table : SymbolTable) : List Memory → Passed
  | [] => ⟨[], [], none⟩
  | m :: rest =>
    match m.unresolved? table with
    | some e =>
      ⟨m.resolved table :: rest, (m.lateDiagnostic? table).toList,
        some ⟨m.source.number, .unresolved e⟩⟩
    | none =>
      let later := pass table rest
      ⟨m.resolved table :: later.memory,
        (m.lateDiagnostic? table).toList ++ later.diagnostics, later.failure⟩

/-- The second pass finds the same under other numbers. -/
theorem lateDiagnostic?_renumber (f : Int → Int) (table : SymbolTable) (m : Memory) :
    (m.renumber f).lateDiagnostic? table =
      (m.lateDiagnostic? table).map (Diagnostic.renumber f) := by
  have hlate : ∀ other : Memory, other.lateDiagnostic? table =
      if other.isPending then Diagnostic.ofRecord? (.memory (other.resolved table)) else none :=
    fun _ => rfl
  rw [hlate, hlate, isPending_renumber, resolved_renumber, ofRecord?_renumber]
  split <;> rfl

/-- The second pass does the same under other numbers. -/
theorem pass_renumber (f : Int → Int) (table : SymbolTable) (memory : List Memory) :
    pass table (memory.map (renumber f)) = (pass table memory).renumber f := by
  induction memory with
  | nil => rfl
  | cons m rest ih =>
    rw [List.map_cons, pass, pass, unresolved?_renumber, lateDiagnostic?_renumber,
      resolved_renumber, source_renumber]
    cases m.unresolved? table with
    | some e => cases m.lateDiagnostic? table <;> rfl
    | none =>
      dsimp only
      rw [ih]
      cases m.lateDiagnostic? table <;> rfl

end Memory

namespace Resolution

variable (table : SymbolTable)

/-- A pass that has stopped keeps its failure. -/
theorem failure_foldl_of_stopped {r : Resolution} (h : r.failure ≠ none) (records : List Record) :
    (records.foldl (step table) r).failure = r.failure := by
  induction records generalizing r with
  | nil => rfl
  | cons record rest ih =>
    rw [List.foldl_cons, step_of_stopped table h]
    exact ih (r := r.keep record) h

/-- A pass that goes on fails with the reason of the record, under the number of its line. -/
theorem failure_step {r : Resolution} (h : r.failure = none) (m : Memory) :
    (step table r (.memory m)).failure =
      (m.unresolved? table).map fun e => ⟨m.source.number, .unresolved e⟩ := by
  cases m with
  | checksum c => exact h
  | instruction i =>
    simp only [step, Memory.unresolved?, Memory.source]
    rcases Instruction.resolve_cases i table with ⟨hp, hi⟩ | ⟨hp, _, _, hi⟩ | ⟨hp, _, _, hi⟩
    · simp [hp, hi, keep, h]
    · simp [hp, h, resolve, hi, keep]
    · simp [hp, h, resolve, hi]

/-- What a pass comes to is read off the memory records. -/
structure Reads (p : Memory.Passed) (r next : Resolution) : Prop where
  /-- The memory records are those of before and the ones it passed. -/
  memory : Record.memoryOf next.records.toList = Record.memoryOf r.records.toList ++ p.memory
  /-- So are the diagnostics. -/
  diagnostics : next.diagnostics.toList = r.diagnostics.toList ++ p.diagnostics
  /-- The pass stops for the same reason. -/
  failure : next.failure = p.failure

/-- The second pass is a pass on the memory records. -/
theorem reads_foldl {r : Resolution} (h : r.failure = none) (records : List Record) :
    Reads (Memory.pass table (Record.memoryOf records)) r (records.foldl (step table) r) := by
  induction records generalizing r with
  | nil => exact ⟨(List.append_nil _).symm, (List.append_nil _).symm, h⟩
  | cons record rest ih =>
    rw [List.foldl_cons]
    cases record with
    | directive d =>
      have hmemory : Record.memoryOf (r.keep (.directive d)).records.toList =
          Record.memoryOf r.records.toList := by
        rw [keep, Array.toList_push, Record.memoryOf_concat_directive]
      have hrest := ih (r := r.keep (.directive d)) h
      exact ⟨hrest.memory.trans (by rw [hmemory]; rfl), hrest.diagnostics, hrest.failure⟩
    | memory m =>
      obtain ⟨hpush, hfound, _⟩ := step_of_running table h (.memory m)
      have hfailure := failure_step table h m
      have hmemory : Record.memoryOf (step table r (.memory m)).records.toList =
          Record.memoryOf r.records.toList ++ [m.resolved table] := by
        rw [hpush, Array.toList_push]
        exact Record.memoryOf_concat_memory _ _
      have hcons : Record.memoryOf (.memory m :: rest) = m :: Record.memoryOf rest := rfl
      rw [hcons, Memory.pass]
      cases hunresolved : m.unresolved? table with
      | some e =>
        -- The pass stops here and keeps the rest of the records.
        rw [hunresolved, Option.map_some] at hfailure
        have hstopped : (step table r (.memory m)).failure ≠ none := by simp [hfailure]
        obtain ⟨hrecords, hdiagnostics, _⟩ := foldl_of_stopped table hstopped rest
        refine ⟨?_, ?_, ?_⟩
        · rw [hrecords, Record.memoryOf_append, hmemory, List.append_assoc]
          rfl
        · rw [hdiagnostics, hfound]
          rfl
        · rw [failure_foldl_of_stopped table hstopped, hfailure]
      | none =>
        rw [hunresolved, Option.map_none] at hfailure
        have hrest := ih hfailure
        refine ⟨?_, ?_, hrest.failure⟩
        · rw [hrest.memory, hmemory, List.append_assoc]
          rfl
        · rw [hrest.diagnostics, hfound, List.append_assoc]
          rfl

end Resolution

/-- The second outcome is the first one with the numbers of the lines changed. -/
structure Outcome.Renumbered (f : Int → Int) (a b : Outcome) : Prop where
  /-- Both runs end in the same stage. -/
  stage : b.stage = a.stage
  /-- Both complete, or both fail for the same reason at corresponding lines. -/
  failure : b.failure = a.failure.map (Failure.renumber f)
  /-- Both programs are complete, or none. -/
  complete : b.program.complete = a.program.complete
  /-- The start address is the same. -/
  origin : b.program.origin = a.program.origin
  /-- The symbols are the same, in the same order. -/
  symbols : b.program.symbols = a.program.symbols
  /-- The memory records are the same but for the numbers of their lines. -/
  memory : b.program.memory = a.program.memory.map (Memory.renumber f)
  /-- The diagnostics are the same but for their line numbers. -/
  diagnostics : b.program.diagnostics.toList =
    a.program.diagnostics.toList.map (Diagnostic.renumber f)

/-- Outcomes that differ in line numbers emit the same bytes at the same addresses. -/
theorem Outcome.Renumbered.objectLines {f : Int → Int} {a b : Outcome} (h : Renumbered f a b) :
    ObjectFile.lines b.program = ObjectFile.lines a.program := by
  rw [ObjectFile.lines, ObjectFile.lines, Program.contributions, Program.contributions, h.memory,
    Memory.contributions_renumber]
  simp only [List.map_map, Function.comp_def, Memory.address_renumber, Memory.bytes_renumber]

/-- Outcomes that differ in line numbers have the same object file. -/
theorem Outcome.Renumbered.encode {f : Int → Int} {a b : Outcome} (h : Renumbered f a b) :
    ObjectFile.encode b.program = ObjectFile.encode a.program := by
  rw [ObjectFile.encode, ObjectFile.encode, Program.contributions, Program.contributions, h.memory,
    Memory.contributions_renumber]
  simp only [List.map_map, Function.comp_def, Memory.assembly_renumber]

namespace Assembly

/-- The outcome of the second pass, read off the memory records. -/
structure Resolves (s : Scan) (p : Memory.Passed) (outcome : Outcome) : Prop where
  /-- The run is ready unless the pass was stopped. -/
  stage : outcome.stage = if p.failure.isNone then .ready else .resolving
  /-- The run fails where the pass does. -/
  failure : outcome.failure = p.failure.map Failure.fatal
  /-- A pass that was not stopped completes the program. -/
  complete : outcome.program.complete = (s.program.complete || p.failure.isNone)
  /-- The start address stays. -/
  origin : outcome.program.origin = s.program.origin
  /-- The symbols stay. -/
  symbols : outcome.program.symbols = s.program.symbols
  /-- The memory records are those of the pass. -/
  memory : outcome.program.memory = p.memory
  /-- The diagnostics of the pass come behind those of the first one. -/
  diagnostics : outcome.program.diagnostics.toList = s.program.diagnostics.toList ++ p.diagnostics

/-- The outcome of the second pass is read off the memory records. -/
theorem resolves_resolve (s : Scan) :
    Resolves s (Memory.pass s.program.symbols s.program.memory) (resolve s) := by
  have hreads : Resolution.Reads (Memory.pass s.program.symbols s.program.memory) .start
      (Resolution.run s.program.symbols s.program.records.toList) := by
    rw [Program.memory_eq]
    exact Resolution.reads_foldl s.program.symbols rfl s.program.records.toList
  have hdiagnostics : (s.program.diagnostics ++ (Resolution.run s.program.symbols
      s.program.records.toList).diagnostics).toList = s.program.diagnostics.toList ++
        (Memory.pass s.program.symbols s.program.memory).diagnostics := by
    rw [Array.toList_append, hreads.diagnostics]
    rfl
  rw [resolve, hreads.failure]
  cases hfailure : (Memory.pass s.program.symbols s.program.memory).failure with
  | some e =>
    refine ⟨?_, ?_, ?_, rfl, rfl, (Program.memory_eq _).trans hreads.memory, hdiagnostics⟩
    · rw [hfailure]
      rfl
    · rw [hfailure]
      rfl
    · rw [hfailure, Option.isNone_some, Bool.or_false]
      rfl
  | none =>
    refine ⟨?_, ?_, ?_, rfl, rfl, (Program.memory_eq _).trans hreads.memory, hdiagnostics⟩
    · rw [hfailure]
      rfl
    · rw [hfailure]
      rfl
    · rw [hfailure, Option.isNone_none, Bool.or_true]
      rfl

/-- From alike states the second pass comes to the same outcome under other numbers. -/
theorem renumbered_resolve {f : Int → Int} {s t : Scan} (h : Scan.Alike f s t) :
    Outcome.Renumbered f (resolve s) (resolve t) := by
  have hs := resolves_resolve s
  have ht := resolves_resolve t
  rw [h.symbols, h.memory, Memory.pass_renumber] at ht
  have hnone : ((Memory.pass s.program.symbols s.program.memory).renumber f).failure.isNone =
      (Memory.pass s.program.symbols s.program.memory).failure.isNone := Option.isNone_map
  refine ⟨?_, ?_, ?_, ?_, ?_, ?_, ?_⟩
  · rw [hs.stage, ht.stage, hnone]
  · rw [hs.failure, ht.failure, Memory.Passed.renumber, Option.map_map, Option.map_map]
    rfl
  · rw [hs.complete, ht.complete, h.complete, hnone]
  · rw [hs.origin, ht.origin, h.origin]
  · rw [hs.symbols, ht.symbols, h.symbols]
  · rw [hs.memory, ht.memory]
    rfl
  · rw [hs.diagnostics, ht.diagnostics, h.diagnostics, List.map_append]
    rfl

end Assembly

/-- A line that can be read and is a comment, a blank line or an end mark. -/
def SourceLine.Inert (line : Text) : Prop :=
  ∃ number source, parse number line = .ok source ∧
    (source.classify = .comment ∨ source.classify = .finish)

/-- The lines with others put between them: the first gap in front of the first line, the second in
front of the second, and what is left over at the end. -/
def withInserted : List (List Text) → List Text → List Text
  | gaps, [] => gaps.flatten
  | gaps, line :: rest => gaps.headD [] ++ line :: withInserted gaps.tail rest

/-- The number of lines put in front of the line at a position. -/
def insertedBefore (gaps : List (List Text)) (position : Nat) : Nat :=
  (gaps.take (position + 1)).flatten.length

/-- The number of a line once others are put between the lines. -/
def placeOf (gaps : List (List Text)) (number : Int) : Int :=
  number + insertedBefore gaps (number.toNat - 1)

/-- Behind the first line there are the gaps but the first one. -/
theorem insertedBefore_succ (gaps : List (List Text)) (position : Nat) :
    insertedBefore gaps (position + 1) =
      (gaps.headD []).length + insertedBefore gaps.tail position := by
  cases gaps with
  | nil => simp [insertedBefore]
  | cons gap gaps => simp [insertedBefore]

/-- In front of the first line there is the first gap. -/
theorem insertedBefore_zero (gaps : List (List Text)) :
    insertedBefore gaps 0 = (gaps.headD []).length := by
  cases gaps with
  | nil => rfl
  | cons gap gaps => simp [insertedBefore]

/-- Every line is found where its number says. -/
theorem getElem?_withInserted (gaps : List (List Text)) (lines : List Text) {k : Nat}
    (hk : k < lines.length) :
    (withInserted gaps lines)[k + insertedBefore gaps k]? = lines[k]? := by
  induction lines generalizing gaps k with
  | nil => exact absurd hk (Nat.not_lt_zero k)
  | cons line rest ih =>
    rw [withInserted]
    cases k with
    | zero => rw [insertedBefore_zero, Nat.zero_add, List.getElem?_append_right (Nat.le_refl _),
        Nat.sub_self, List.getElem?_cons_zero, List.getElem?_cons_zero]
    | succ k =>
      have hposition : k + 1 + insertedBefore gaps (k + 1) - (gaps.headD []).length =
          k + insertedBefore gaps.tail k + 1 := by
        rw [insertedBefore_succ]
        omega
      rw [List.getElem?_append_right (by rw [insertedBefore_succ]; omega), hposition,
        List.getElem?_cons_succ, List.getElem?_cons_succ]
      exact ih gaps.tail (Nat.lt_of_succ_lt_succ hk)

namespace Scan

/-- A state with room reads an inert line as a directive and goes on. -/
theorem scanLine_inert {t : Scan} (hroom : t.limitFault? = none) {line : Text}
    (h : SourceLine.Inert line) (number : Int) :
    ∃ source, t.scanLine number line = (t.addDirective source, none) := by
  obtain ⟨other, source, hparse, hclass⟩ := h
  have hread := SourceLine.parse_renumber (fun _ => number) other line
  rw [hparse] at hread
  refine ⟨source.renumber fun _ => number, ?_⟩
  have hsame : (source.renumber fun _ => number).classify = source.classify := rfl
  have hstill : (t.addDirective (source.renumber fun _ => number)).limitFault? = none := hroom
  have hscan : t.scanSource (source.renumber fun _ => number) =
      (t.addDirective (source.renumber fun _ => number)).checked := by
    rw [scanSource, hsame]
    rcases hclass with hclass | hclass <;> rw [hclass]
  rw [scanLine_of_parse hread, hscan, checked, hstill]
  rfl

/-- Two passes end in alike states, and both go on or both are stopped, for the same reason at
corresponding lines. -/
structure EndAlike (f : Int → Int) (a b : Scan × Option Failure) : Prop where
  /-- The states are alike. -/
  state : Alike f a.1 b.1
  /-- The passes are stopped for the same reason. -/
  failure : b.2 = a.2.map (Failure.renumber f)

namespace Alike

variable {f : Int → Int} {s t : Scan}

/-- A state that goes through inert lines stays alike to one that does not see them. -/
theorem skip (h : Alike f s t) (hroom : s.limitFault? = none) {gap : List Text}
    (hgap : ∀ line ∈ gap, SourceLine.Inert line) (count : Nat) :
    ∃ u, Scan.scanLines none t count gap = (u, none) ∧ Alike f s u := by
  induction gap generalizing t count with
  | nil => exact ⟨t, rfl, h⟩
  | cons line rest ih =>
    obtain ⟨source, hline⟩ := scanLine_inert (h.limitFault?.trans hroom)
      (hgap line List.mem_cons_self) (count + 1)
    obtain ⟨u, hrest, hu⟩ := ih (h.addDirective_right source)
      (fun other hother => hgap other (List.mem_cons_of_mem _ hother)) (count + 1)
    refine ⟨u, ?_, hu⟩
    rw [Scan.scanLines, Option.any_none, if_neg Bool.false_ne_true, hline]
    exact hrest

/-- Behind a line that both read, under corresponding numbers, two passes end alike if they do so
from alike states with room. -/
theorem scanLines_cons (h : Alike f s t) {count count' : Nat}
    (hnumber : f ((count : Int) + 1) = (count' : Int) + 1) (line : Text) {rest others : List Text}
    (hrest : ∀ {next next' : Scan}, Alike f next next' → next.limitFault? = none →
      EndAlike f (Scan.scanLines none next (count + 1) rest)
        (Scan.scanLines none next' (count' + 1) others)) :
    EndAlike f (Scan.scanLines none s count (line :: rest))
      (Scan.scanLines none t count' (line :: others)) := by
  obtain ⟨hnext, herror⟩ := h.scanLine ((count : Int) + 1) line
  rw [hnumber] at hnext herror
  rw [Scan.scanLines, Scan.scanLines, Option.any_none, Option.any_none,
    if_neg Bool.false_ne_true, if_neg Bool.false_ne_true]
  cases hs : s.scanLine ((count : Int) + 1) line with
  | mk next error =>
    cases ht : t.scanLine ((count' : Int) + 1) line with
    | mk next' error' =>
      rw [hs, ht] at hnext herror
      obtain rfl : error' = error.map (FatalError.renumber f) := herror
      cases error with
      | some e => exact ⟨hnext, rfl⟩
      | none =>
        obtain ⟨_, _, _, hroom⟩ := scanLine_ok hs
        exact hrest hnext hroom

/-- A pass over lines and one with inert lines put between them end alike. -/
theorem scanLines_withInserted (lines : List Text) (h : Alike f s t) (hroom : s.limitFault? = none)
    (gaps : List (List Text)) (hgaps : ∀ gap ∈ gaps, ∀ line ∈ gap, SourceLine.Inert line)
    (count count' : Nat)
    (hplace : ∀ k < lines.length,
      f ((count + k : Nat) + 1) = (count' + k + insertedBefore gaps k : Nat) + 1) :
    EndAlike f (Scan.scanLines none s count lines)
      (Scan.scanLines none t count' (withInserted gaps lines)) := by
  induction lines generalizing s t gaps count count' with
  | nil =>
    have hinert : ∀ line ∈ gaps.flatten, SourceLine.Inert line := by
      intro line hline
      obtain ⟨gap, hgap, hmem⟩ := List.mem_flatten.mp hline
      exact hgaps gap hgap line hmem
    obtain ⟨u, hread, hu⟩ := h.skip hroom hinert count'
    rw [withInserted, hread]
    exact ⟨hu, rfl⟩
  | cons line rest ih =>
    have hhead : ∀ line ∈ gaps.headD [], SourceLine.Inert line := by
      cases gaps with
      | nil => exact fun line hline => absurd hline List.not_mem_nil
      | cons gap gaps => exact hgaps gap List.mem_cons_self
    have htail : ∀ gap ∈ gaps.tail, ∀ line ∈ gap, SourceLine.Inert line := fun gap hgap =>
      hgaps gap (List.mem_of_mem_tail hgap)
    have hnumber : f ((count : Int) + 1) = ((count' + (gaps.headD []).length : Nat) : Int) + 1 := by
      have hfirst := hplace 0 (Nat.zero_lt_succ _)
      rwa [insertedBefore_zero, Nat.add_zero, Nat.add_zero] at hfirst
    -- The pass goes through the gap first and is then at the line that the other one reads.
    obtain ⟨u, hread, hu⟩ := h.skip hroom hhead count'
    rw [withInserted, scanLines_append, hread]
    refine hu.scanLines_cons hnumber line fun hnext hnextRoom =>
      ih hnext hnextRoom gaps.tail htail (count + 1) _ fun k hk => ?_
    have hlater := hplace (k + 1) (Nat.succ_lt_succ hk)
    rw [insertedBefore_succ] at hlater
    have hleft : count + 1 + k = count + (k + 1) := by omega
    have hright : count' + (gaps.headD []).length + 1 + k + insertedBefore gaps.tail k =
        count' + (k + 1) + ((gaps.headD []).length + insertedBefore gaps.tail k) := by omega
    rw [hleft, hright]
    exact hlater

end Alike

end Scan

namespace Assembly

/-- First passes that end alike lead to outcomes that differ in the numbers of the lines only. -/
theorem renumbered_run {f : Int → Int} {origin : UInt16} {lines others : List Text}
    (h : Scan.EndAlike f (Scan.scanLines none (opening origin lines) 0 lines)
      (Scan.scanLines none (opening origin others) 0 others)) :
    Outcome.Renumbered f (run origin none lines) (run origin none others) := by
  obtain ⟨hstate, hfailure⟩ := h
  rw [← scanned_eq, ← scanned_eq] at hstate
  cases hend : (Scan.scanLines none (opening origin lines) 0 lines).2 with
  | some failure =>
    rw [hend, Option.map_some] at hfailure
    rw [run_of_stopped hend, run_of_stopped hfailure]
    exact ⟨rfl, rfl, hstate.complete, hstate.origin, hstate.symbols, hstate.memory,
      hstate.diagnostics⟩
  | none =>
    rw [hend, Option.map_none] at hfailure
    rw [run_of_scanned hend, run_of_scanned hfailure]
    exact renumbered_resolve hstate

/-- Comments, blank lines and end marks put anywhere between the lines of a source change the
numbers of its lines and nothing else: the run completes, or fails for the same reason at the
corresponding line, with the same start address and symbols, the same memory records, bytes and
object file, and the same diagnostics. -/
theorem inert_lines_only_renumber (origin : UInt16) (gaps : List (List Text)) (lines : List Text)
    (hgaps : ∀ gap ∈ gaps, ∀ line ∈ gap, SourceLine.Inert line) :
    let plain := run origin none lines
    let padded := run origin none (withInserted gaps lines)
    (∀ k < lines.length,
      (withInserted gaps lines)[(placeOf gaps (k + 1)).toNat - 1]? = lines[k]?) ∧
      Outcome.Renumbered (placeOf gaps) plain padded ∧
      ObjectFile.lines padded.program = ObjectFile.lines plain.program ∧
      ObjectFile.encode padded.program = ObjectFile.encode plain.program := by
  intro plain padded
  have hplace : ∀ k : Nat,
      placeOf gaps ((k : Int) + 1) = (k + insertedBefore gaps k : Nat) + 1 := by
    intro k
    have hposition : ((k : Int) + 1).toNat - 1 = k := by omega
    rw [placeOf, hposition]
    omega
  have hrenumbered : Outcome.Renumbered (placeOf gaps) plain padded :=
    renumbered_run <| (alike_opening (placeOf gaps) origin lines
      (withInserted gaps lines)).scanLines_withInserted lines (room_opening origin lines) gaps hgaps
        0 0 fun k _ => by rw [Nat.zero_add, hplace]
  refine ⟨fun k hk => ?_, hrenumbered, hrenumbered.objectLines, hrenumbered.encode⟩
  have hposition : (placeOf gaps ((k : Int) + 1)).toNat - 1 = k + insertedBefore gaps k := by
    rw [hplace]
    omega
  rw [hposition]
  exact getElem?_withInserted gaps lines hk

/-- With a comment before a forward jump, and a blank line and a labelled end mark behind it, the
object file stays and the diagnostic of the second line is found on the fifth. -/
theorem inert_lines_only_renumber_around_forward_jump :
    let lines := [Text.ascii "        JMP  LATER", Text.ascii "        JMP  #$12",
      Text.ascii "LATER   CHK"]
    let gaps := [[Text.ascii "* start"], [Text.ascii "", Text.ascii "STOP    END"]]
    let plain := run 0x8000 none lines
    let padded := run 0x8000 none (withInserted gaps lines)
    plain.failure = none ∧
      (∀ gap ∈ gaps, ∀ line ∈ gap, SourceLine.Inert line) ∧
      Outcome.Renumbered (placeOf gaps) plain padded ∧
      ObjectFile.encode padded.program = ObjectFile.encode plain.program ∧
      plain.program.diagnostics.toList.map (·.line) = [2] ∧
      padded.program.diagnostics.toList.map (·.line) = [5] := by
  intro lines gaps plain padded
  have hinert : ∀ gap ∈ gaps, ∀ line ∈ gap, SourceLine.Inert line := by
    intro gap hgap line hline
    simp only [gaps, List.mem_cons, List.not_mem_nil, or_false] at hgap
    rcases hgap with rfl | rfl
    · obtain rfl := List.mem_singleton.mp hline
      exact ⟨1, _, rfl, .inl (by decide +kernel)⟩
    · simp only [List.mem_cons, List.not_mem_nil, or_false] at hline
      rcases hline with rfl | rfl
      · exact ⟨3, _, rfl, .inl (by decide +kernel)⟩
      · exact ⟨4, _, rfl, .inr (by decide +kernel)⟩
  obtain ⟨_, hrenumbered, _, hencode⟩ := inert_lines_only_renumber 0x8000 gaps lines hinert
  exact ⟨by decide +kernel, hinert, hrenumbered, hencode, by decide +kernel, by decide +kernel⟩

end Assembly

end ColumnAssembler
