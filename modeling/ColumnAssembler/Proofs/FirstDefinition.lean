import ColumnAssembler.Proofs.ExactDiagnostics
import ColumnAssembler.Proofs.SymbolNames

/-!
# The first definition stands

Labels are defined by instructions, checksums and constants, and by two ways through the pass: a
constant looks for its name before it looks at its operand, the others define behind their record.
Either way the table before a line holds the labels of the defining lines before it, so whether a
definition is the first of its label can be read off the table. From that the whole table is the
distinct labels in the order of their first definitions, and every later definition is one
diagnostic and nothing else.
-/

namespace ColumnAssembler

/-- A line that the first pass works on, with the state before it. -/
structure Visit where
  /-- The state in which the line is met. -/
  before : Scan
  /-- The line. -/
  source : SourceLine

namespace Visit

/-- The state that the line leads to. -/
def after (v : Visit) : Scan := (v.before.scanSource v.source).1

/-- The label of the line. -/
def label (v : Visit) : Text := v.source.label

/-- Whether the line defines its label. -/
def defines (v : Visit) : Bool := v.before.defines v.source

/-- Whether the label of the line has a definition already. -/
def isTaken (v : Visit) : Bool := v.before.program.symbols.has v.label

/-- The symbol that the line defines. -/
def symbol (v : Visit) : Symbol := ⟨v.label, v.before.labelValue v.source⟩

/-- The diagnostic of a line whose label is defined already. -/
def report (v : Visit) : Diagnostic := ⟨.duplicateSymbol, v.source.number⟩

/-- The line gives its label the value: a constant that of its operand, any other line the address
of its record in the program. -/
def Gives (v : Visit) (program : Program) (value : UInt16) : Prop :=
  match v.source.classify with
  | .constant => v.before.Means v.source.operand value
  | _ => ∃ m ∈ program.memory, m.source = v.source ∧ m.address = value

end Visit

namespace SymbolTable

/-- A definition in a table whose names are the distinct ones of some labels adds the name to the
labels: it is not a new one exactly when the table has it. -/
theorem map_name_added {table : SymbolTable} {labels : List Text}
    (h : table.symbols.map Symbol.name = labels.eraseDups) (name : Text) (value : UInt16) :
    (table.symbols ++ table.added name value).map Symbol.name = (labels ++ [name]).eraseDups := by
  have hlabel : labels.elem name = table.has name := by
    rw [Bool.eq_iff_iff, List.elem_iff, has_iff, h, List.mem_eraseDups]
  rw [List.map_append, h, List.eraseDups_append, List.removeAll, List.filter_singleton, hlabel,
    added]
  cases table.has name <;> rfl

end SymbolTable

namespace Scan

/-- The lines that the pass works on, up to the one that stops it. A line that cannot be read is
not among them. -/
def visits (cancelAt : Option Nat) : Scan → Nat → List Text → List Visit
  | _, _, [] => []
  | s, count, line :: rest =>
    if cancelAt.any (· ≤ count) then []
    else
      match SourceLine.parse (count + 1) line with
      | .error _ => []
      | .ok source =>
        ⟨s, source⟩ :: match s.scanSource source with
          | (_, some _) => []
          | (next, none) => visits cancelAt next (count + 1) rest

/-- What every visit keeps, of the visits so far and the state, holds at the end of the pass. -/
theorem scanLines_visits {P : List Visit → Scan → Prop} (cancelAt : Option Nat)
    (step : ∀ {earlier : List Visit} {s : Scan} (source : SourceLine), P earlier s →
      P (earlier ++ [⟨s, source⟩]) (s.scanSource source).1)
    (lines : List Text) (s : Scan) (count : Nat) (earlier : List Visit) (hs : P earlier s) :
    P (earlier ++ visits cancelAt s count lines) (scanLines cancelAt s count lines).1 := by
  -- The visits grow at their end while the lines are taken from their front, so the induction has
  -- to hold for any visits made before.
  induction lines generalizing s count earlier with
  | nil => rwa [visits, List.append_nil]
  | cons line rest ih =>
    rw [scanLines, visits]
    split
    · rwa [List.append_nil]
    · cases hparse : SourceLine.parse (count + 1) line with
      | error cause =>
        rw [scanLine_of_error hparse]
        rwa [List.append_nil]
      | ok source =>
        have hnext := step source hs
        rw [scanLine_of_parse hparse]
        dsimp only
        cases hline : s.scanSource source with
        | mk next fault =>
          rw [hline] at hnext
          cases fault with
          | some fault => exact hnext
          | none =>
            have hrest := ih next (count + 1) _ hnext
            rwa [List.append_assoc] at hrest

/-- Every line that the pass works on is met with room left. -/
theorem room_of_mem_visits {cancelAt : Option Nat} {lines : List Text} {s : Scan} {count : Nat}
    (hs : s.limitFault? = none) {v : Visit} (hv : v ∈ visits cancelAt s count lines) :
    v.before.limitFault? = none := by
  induction lines generalizing s count with
  | nil => exact absurd hv List.not_mem_nil
  | cons line rest ih =>
    rw [visits] at hv
    split at hv
    · exact absurd hv List.not_mem_nil
    · split at hv
      · exact absurd hv List.not_mem_nil
      · next source hparse =>
        rcases List.mem_cons.mp hv with rfl | hv
        · exact hs
        · split at hv
          · exact absurd hv List.not_mem_nil
          · next next hline =>
            have hok : s.scanLine (count + 1) line = (next, none) := by
              rw [scanLine_of_parse hparse, hline]
              rfl
            obtain ⟨_, _, _, hroom⟩ := scanLine_ok hok
            exact ih hroom hv

/-- The lines that the pass works on have ascending numbers. -/
theorem ascending_visits (cancelAt : Option Nat) (s : Scan) (count : Nat) (lines : List Text) :
    (visits cancelAt s count lines).Pairwise (fun a b => a.source.number < b.source.number) ∧
      ∀ v ∈ visits cancelAt s count lines, count < v.source.number := by
  induction lines generalizing s count with
  | nil => exact ⟨List.Pairwise.nil, fun v hv => absurd hv List.not_mem_nil⟩
  | cons line rest ih =>
    rw [visits]
    split
    · exact ⟨List.Pairwise.nil, fun v hv => absurd hv List.not_mem_nil⟩
    · split
      · exact ⟨List.Pairwise.nil, fun v hv => absurd hv List.not_mem_nil⟩
      · next source hparse =>
        have hnumber := SourceLine.number_of_parse hparse
        split
        · refine ⟨List.pairwise_singleton _ _, fun v hv => ?_⟩
          rw [List.mem_singleton.mp hv, hnumber]
          omega
        · next next _ =>
          obtain ⟨hrest, hlater⟩ := ih next (count + 1)
          refine ⟨List.pairwise_cons.mpr ⟨fun v hv => ?_, hrest⟩, fun v hv => ?_⟩
          · have hbehind := hlater v hv
            rw [hnumber]
            omega
          · rcases List.mem_cons.mp hv with rfl | hv
            · rw [hnumber]
              omega
            · have hbehind := hlater v hv
              omega

/-- A constant whose name is taken leaves its record and a report, and goes on. -/
theorem scanSource_taken {s : Scan} {source : SourceLine} (hclass : source.classify = .constant)
    (hlabel : source.label.isEmpty = false) (htaken : s.program.symbols.has source.label = true)
    (hroom : s.limitFault? = none) :
    s.scanSource source =
      ((s.addDirective source).report ⟨.duplicateSymbol, source.number⟩, none) := by
  have hsame : (s.addDirective source).program.symbols.has source.label = true := htaken
  have hstill : ((s.addDirective source).report
      ⟨.duplicateSymbol, source.number⟩).limitFault? = none := hroom
  rw [scanSource, hclass]
  dsimp only
  rw [defineConstant, hlabel, if_neg Bool.false_ne_true, hsame, if_pos rfl, checked, hstill]

/-- A line that defines its label adds a record. -/
theorem record?_of_defines {s : Scan} {source : SourceLine} (h : s.defines source = true) :
    ∃ r, s.record? source = some r := by
  unfold record?
  cases hclass : source.classify with
  | comment | finish | origin | constant | checksum => exact ⟨_, rfl⟩
  | instruction =>
    cases hcreate : Instruction.create? source (UInt16.ofNat s.address) s.program.symbols with
    | some i => exact ⟨_, rfl⟩
    | none => simp [defines, scanSource, hclass, hcreate, Fault.kind] at h

/-- A line that defines its label is a constant or takes a place in memory. -/
theorem memory_of_defines {s : Scan} {source : SourceLine} (h : s.defines source = true)
    (hclass : source.classify ≠ .constant) : ∃ m, s.record? source = some (.memory m) := by
  obtain ⟨r, hr⟩ := record?_of_defines h
  cases hgiven : source.classify with
  | constant => exact absurd hgiven hclass
  | comment | finish | origin => simp [defines, hgiven, LineClass.givesValue] at h
  | checksum => exact ⟨_, by rw [record?, hgiven]⟩
  | instruction =>
    rw [record?, hgiven] at hr ⊢
    obtain ⟨i, hcreate, _⟩ := Option.map_eq_some_iff.mp hr
    exact ⟨.instruction i, Option.map_eq_some_iff.mpr ⟨i, hcreate, rfl⟩⟩

/-- A constant that defines a new name gives it the value of its operand. -/
theorem means_of_defines {s : Scan} {source : SourceLine} (h : s.defines source = true)
    (hclass : source.classify = .constant) (hfree : s.program.symbols.has source.label = false) :
    s.Means source.operand (s.labelValue source) := by
  rw [defines_constant hclass, hfree, Bool.false_or, Bool.and_eq_true] at h
  rw [labelValue, hclass]
  cases hvalue : s.argument source.operand with
  | error fault => simp [hvalue, Except.toOption] at h
  | ok value => exact means_wordOf hvalue

end Scan

namespace Visit

/-- What a state keeps of a defining line that was visited before. -/
structure Kept (v : Visit) (s : Scan) : Prop where
  /-- A first definition is in the table. -/
  value : v.isTaken = false → v.symbol ∈ s.program.symbols.symbols
  /-- A later definition is reported. -/
  report : v.isTaken = true → v.report ∈ s.program.diagnostics.toList
  /-- The record of the line is kept. -/
  record : ∃ r ∈ s.program.records.toList, v.before.record? v.source = some r

/-- A line keeps what the state has of the lines before it. -/
theorem Kept.scanSource {v : Visit} {s : Scan} (h : v.Kept s) (source : SourceLine) :
    v.Kept (s.scanSource source).1 := by
  have hadds := Scan.adds_scanSource s source
  refine ⟨fun hfree => ?_, fun htaken => ?_, ?_⟩
  · rw [hadds.symbols]
    exact List.mem_append_left _ (h.value hfree)
  · rw [hadds.diagnostics]
    exact List.mem_append_left _ (h.report htaken)
  · obtain ⟨r, hr, hrecord⟩ := h.record
    rw [Scan.records_scanSource]
    exact ⟨r, List.mem_append_left _ hr, hrecord⟩

/-- A defining line leaves its symbol or its report. -/
theorem kept_after {v : Visit} (h : v.defines = true) : v.Kept v.after := by
  have hadds := Scan.adds_scanSource v.before v.source
  have hdefines : v.before.defines v.source = true := h
  refine ⟨fun hfree => ?_, fun htaken => ?_, ?_⟩
  · have hfree : v.before.program.symbols.has v.source.label = false := hfree
    rw [after, hadds.symbols, Scan.newSymbols, hdefines, SymbolTable.added, hfree]
    exact List.mem_append_right _ (List.mem_singleton_self _)
  · have htaken : v.before.program.symbols.has v.source.label = true := htaken
    rw [after, hadds.diagnostics, Scan.duplicates, hdefines, SymbolTable.clash, htaken]
    exact List.mem_append_right _ (List.mem_append_left _ (List.mem_singleton_self _))
  · obtain ⟨r, hr⟩ := Scan.record?_of_defines hdefines
    rw [after, Scan.records_scanSource, hr]
    exact ⟨r, List.mem_append_right _ (List.mem_singleton_self r), rfl⟩

/-- A line whose label is taken changes no symbol. -/
theorem symbols_after_of_taken {v : Visit} (h : v.isTaken = true) :
    v.after.program.symbols = v.before.program.symbols := by
  have hadds := Scan.adds_scanSource v.before v.source
  have htaken : v.before.program.symbols.has v.source.label = true := h
  have hnone : v.before.newSymbols v.source = [] := by
    rw [Scan.newSymbols, SymbolTable.added, htaken, if_pos rfl, ite_self]
  have hsame := hadds.symbols
  rw [hnone, List.append_nil] at hsame
  exact congrArg SymbolTable.mk hsame

end Visit

namespace Scan

/-- What the table and the diagnostics have to do with the defining lines so far. -/
structure Defined (defs : List Visit) (s : Scan) : Prop where
  /-- The names are the distinct labels in the order of their first definitions. -/
  names : s.program.symbols.symbols.map Symbol.name = (defs.map Visit.label).eraseDups
  /-- A label is taken exactly when an earlier line defines it. -/
  taken : ∀ (k : Nat) (v : Visit), defs[k]? = some v →
    (v.isTaken = true ↔ v.label ∈ (defs.take k).map Visit.label)
  /-- Every definition is in the table or reported. -/
  kept : ∀ v ∈ defs, v.Kept s
  /-- Nothing but a later definition is reported as one. -/
  reports : ∀ d ∈ s.program.diagnostics.toList, d.kind = .duplicateSymbol →
    ∃ v ∈ defs, v.isTaken = true ∧ v.report = d

/-- What a line reports as a later definition is its own. -/
theorem duplicate_of_mem_found {s : Scan} {source : SourceLine} {d : Diagnostic}
    (h : d ∈ s.duplicates source ++ s.markers source) (hkind : d.kind = .duplicateSymbol) :
    s.defines source = true ∧ s.program.symbols.has source.label = true ∧
      Visit.report ⟨s, source⟩ = d := by
  rcases List.mem_append.mp h with hlabel | hmarker
  · have hreport := mem_duplicates hlabel
    unfold duplicates SymbolTable.clash at hlabel
    split at hlabel
    · next hdefines =>
      split at hlabel
      · next hhas => exact ⟨hdefines, hhas, hreport.symm⟩
      · exact absurd hlabel List.not_mem_nil
    · exact absurd hlabel List.not_mem_nil
  · have hown := (mem_markers hmarker).2
    simp [Diagnostic.isMarker, hkind] at hown

/-- A line that defines nothing leaves the definitions as they are. -/
theorem Defined.skip {defs : List Visit} {s : Scan} {source : SourceLine} (hs : Defined defs s)
    (hskip : s.defines source = false) : Defined defs (s.scanSource source).1 := by
  have hadds := adds_scanSource s source
  refine ⟨?_, hs.taken, fun v hv => (hs.kept v hv).scanSource source, fun d hd hkind => ?_⟩
  · rw [hadds.symbols, newSymbols, hskip]
    simpa using hs.names
  · rw [hadds.diagnostics] at hd
    rcases List.mem_append.mp hd with hd | hd
    · exact hs.reports d hd hkind
    · rw [(duplicate_of_mem_found hd hkind).1] at hskip
      exact absurd hskip (by decide)

/-- A line that defines its label is one more definition. -/
theorem Defined.define {defs : List Visit} {s : Scan} {source : SourceLine} (hs : Defined defs s)
    (hdefines : s.defines source = true) :
    Defined (defs ++ [⟨s, source⟩]) (s.scanSource source).1 := by
  have hadds := adds_scanSource s source
  refine ⟨?_, fun k v hv => ?_, fun v hv => ?_, fun d hd hkind => ?_⟩
  · have hadded := SymbolTable.map_name_added hs.names source.label (s.labelValue source)
    rw [hadds.symbols, newSymbols, hdefines, if_pos rfl, hadded, List.map_append]
    rfl
  · rcases getElem?_concat_cases hv with ⟨hlt, hearlier⟩ | ⟨hend, rfl⟩
    · rw [List.take_append_of_le_length (Nat.le_of_lt hlt)]
      exact hs.taken k v hearlier
    · rw [hend, List.take_left, Visit.isTaken, SymbolTable.has_iff, hs.names, List.mem_eraseDups]
  · rcases List.mem_append.mp hv with hv | hv
    · exact (hs.kept v hv).scanSource source
    · rw [List.mem_singleton.mp hv]
      exact Visit.kept_after hdefines
  · rw [hadds.diagnostics] at hd
    rcases List.mem_append.mp hd with hd | hd
    · obtain ⟨v, hv, hreport⟩ := hs.reports d hd hkind
      exact ⟨v, List.mem_append_left _ hv, hreport⟩
    · obtain ⟨_, hhas, hreport⟩ := duplicate_of_mem_found hd hkind
      exact ⟨_, List.mem_append_right _ (List.mem_singleton_self _), hhas, hreport⟩

/-- A visit keeps the table and the diagnostics in agreement with the defining lines. -/
theorem Defined.step {earlier : List Visit} {s : Scan}
    (hs : Defined (earlier.filter Visit.defines) s) (source : SourceLine) :
    Defined (List.filter Visit.defines (earlier ++ [⟨s, source⟩])) (s.scanSource source).1 := by
  have hvisit : Visit.defines ⟨s, source⟩ = s.defines source := rfl
  rw [List.filter_append, List.filter_cons, hvisit, List.filter_nil]
  cases hdefines : s.defines source with
  | true => exact hs.define hdefines
  | false =>
    rw [if_neg Bool.false_ne_true, List.append_nil]
    exact hs.skip hdefines

end Scan

/-- What the definitions of a pass, in order, have to do with the program that comes of it. -/
structure FirstStands (defs : List Visit) (program : Program) : Prop where
  /-- The definitions are on ascending lines. -/
  ascending : defs.Pairwise fun a b => a.source.number < b.source.number
  /-- The names are the distinct labels in the order of their first definitions. -/
  names : program.symbols.symbols.map Symbol.name = (defs.map Visit.label).eraseDups
  /-- A label has the value that its first definition gives it. -/
  first : ∀ (k : Nat) (v : Visit), defs[k]? = some v →
    v.label ∉ (defs.take k).map Visit.label →
      ∃ value, program.symbols.get? v.label = some ⟨v.label, value⟩ ∧ v.Gives program value
  /-- A later definition is reported once and changes no symbol. -/
  later : ∀ (k : Nat) (v : Visit), defs[k]? = some v →
    v.label ∈ (defs.take k).map Visit.label →
      program.diagnostics.toList.count v.report = 1 ∧
        v.after.program.symbols = v.before.program.symbols
  /-- A later definition of a constant is its record and its report, whatever its operand is. -/
  unread : ∀ (k : Nat) (v : Visit), defs[k]? = some v →
    v.label ∈ (defs.take k).map Visit.label → v.source.classify = .constant →
      ∀ operand : Text, v.before.scanSource { v.source with operand } =
        ((v.before.addDirective { v.source with operand }).report v.report, none)
  /-- Nothing else is reported as a later definition. -/
  only : ∀ d ∈ program.diagnostics.toList, d.kind = .duplicateSymbol →
    ∃ (k : Nat) (v : Visit), defs[k]? = some v ∧ v.label ∈ (defs.take k).map Visit.label ∧
      v.report = d

namespace Assembly

/-- The defining lines that the first pass works on, in order. -/
def definitions (origin : UInt16) (cancelAt : Option Nat) (lines : List Text) : List Visit :=
  (Scan.visits cancelAt (opening origin lines) 0 lines).filter Visit.defines

variable {origin : UInt16} {cancelAt : Option Nat} {lines : List Text}

/-- The first pass keeps the table and the diagnostics in agreement with the definitions. -/
theorem defined_scanned (origin : UInt16) (cancelAt : Option Nat) (lines : List Text) :
    Scan.Defined (definitions origin cancelAt lines) (scanned origin cancelAt lines) := by
  have hopen : Scan.Defined [] (opening origin lines) :=
    ⟨rfl, fun k v hv => by simp at hv, fun v hv => absurd hv List.not_mem_nil,
      fun d hd => absurd hd List.not_mem_nil⟩
  have hrun := Scan.scanLines_visits
    (P := fun visits s => Scan.Defined (visits.filter Visit.defines) s) cancelAt
    (fun source hs => hs.step source) lines (opening origin lines) 0 [] hopen
  rw [scanned_eq]
  exact hrun

/-- The second pass reports no later definition. -/
theorem count_duplicate_run (origin : UInt16) (cancelAt : Option Nat) (lines : List Text)
    {d : Diagnostic} (hkind : d.kind = .duplicateSymbol) :
    (run origin cancelAt lines).program.diagnostics.toList.count d =
      (scanned origin cancelAt lines).program.diagnostics.toList.count d := by
  obtain ⟨front, rest, _, _, hdiagnostics⟩ := records_run origin cancelAt lines
  have hlate : d ∉ front.filterMap
      (Record.lateDiagnostic? (scanned origin cancelAt lines).program.symbols) := by
    intro hd
    obtain ⟨r, _, hr⟩ := List.mem_filterMap.mp hd
    have hmarker := (Record.lateDiagnostic?_eq_some hr).2
    simp [Diagnostic.isMarker, hkind] at hmarker
  rw [hdiagnostics, List.count_append, List.count_eq_zero_of_not_mem hlate, Nat.add_zero]

/-- No diagnostic of the first pass is found twice. -/
theorem nodup_diagnostics_scanned (origin : UInt16) (cancelAt : Option Nat) (lines : List Text) :
    (scanned origin cancelAt lines).program.diagnostics.toList.Nodup := by
  obtain ⟨last, hdiagnosed⟩ := diagnosed_scanned origin cancelAt lines
  -- No diagnostic precedes itself.
  refine hdiagnosed.ordered.imp fun {a b} hab heq => ?_
  rw [heq] at hab
  rcases hab with hline | ⟨_, hlabel, hmarker⟩
  · exact absurd hline (Int.lt_irrefl _)
  · exact hmarker hlabel

/-- The first definition of a label in the pass gives it its value in the program. -/
theorem gives_of_first {v : Visit} (hv : v ∈ definitions origin cancelAt lines)
    (hfree : v.isTaken = false) :
    v.Gives (run origin cancelAt lines).program (v.before.labelValue v.source) := by
  have hdefines : v.before.defines v.source = true := (List.mem_filter.mp hv).2
  unfold Visit.Gives
  split
  · next hclass => exact Scan.means_of_defines hdefines hclass hfree
  · next hclass =>
    obtain ⟨m, hm⟩ := Scan.memory_of_defines hdefines hclass
    obtain ⟨r, hr, hrecord⟩ := ((defined_scanned origin cancelAt lines).kept v hv).record
    rw [hm, Option.some.injEq] at hrecord
    rw [← hrecord] at hr
    have hmemory : m ∈ (scanned origin cancelAt lines).program.memory :=
      Program.mem_memory.mpr hr
    obtain ⟨final, hfinal, hsource, haddress⟩ := exists_mem_memory_run hmemory
    have hline : m.source = v.source := Scan.source_of_record? hm
    exact ⟨final, hfinal, hsource.trans hline, haddress.trans (Scan.address_of_record? hm)⟩

/-- The first definition of a label stands in the program, every later one is reported once and
changes nothing, and the second pass changes no symbol. -/
theorem first_definition_stands (origin : UInt16) (cancelAt : Option Nat) (lines : List Text) :
    FirstStands (definitions origin cancelAt lines) (run origin cancelAt lines).program ∧
      (run origin cancelAt lines).program.symbols =
        (scanned origin cancelAt lines).program.symbols := by
  have hdefined := defined_scanned origin cancelAt lines
  have hsymbols := symbols_run origin cancelAt lines
  refine ⟨⟨?_, ?_, fun k v hv hfirst => ?_, fun k v hv hlater => ?_,
    fun k v hv hlater hclass operand => ?_, fun d hd hkind => ?_⟩, hsymbols⟩
  · exact (Scan.ascending_visits _ _ _ _).1.filter _
  · rw [hsymbols]
    exact hdefined.names
  · have hmem := List.mem_of_getElem? hv
    have hfree : v.isTaken = false :=
      Bool.eq_false_iff.mpr fun htaken => hfirst ((hdefined.taken k v hv).mp htaken)
    refine ⟨v.before.labelValue v.source, ?_, gives_of_first hmem hfree⟩
    rw [hsymbols]
    exact (named_stateAfter _).get?_name ((hdefined.kept v hmem).value hfree)
  · have hmem := List.mem_of_getElem? hv
    have htaken := (hdefined.taken k v hv).mpr hlater
    have hreport := (hdefined.kept v hmem).report htaken
    constructor
    · rw [count_duplicate_run origin cancelAt lines rfl]
      exact List.count_eq_one_of_mem (nodup_diagnostics_scanned origin cancelAt lines) hreport
    · exact Visit.symbols_after_of_taken htaken
  · have hmem := List.mem_of_getElem? hv
    have htaken := (hdefined.taken k v hv).mpr hlater
    obtain ⟨hvisit, hdefines⟩ := List.mem_filter.mp hmem
    have hroom := Scan.room_of_mem_visits (room_opening origin lines) hvisit
    rw [Visit.defines, Scan.defines, Bool.and_eq_true, Bool.and_eq_true] at hdefines
    have hlabel : v.source.label.isEmpty = false := by simpa using hdefines.1.1
    exact Scan.scanSource_taken hclass hlabel htaken hroom
  · -- The diagnostic is one of the first pass, where every such report has its line.
    rw [← List.count_pos_iff, count_duplicate_run origin cancelAt lines hkind,
      List.count_pos_iff] at hd
    obtain ⟨v, hv, htaken, hreport⟩ := hdefined.reports d hd hkind
    obtain ⟨k, hk⟩ := List.getElem?_of_mem hv
    exact ⟨k, v, hk, (hdefined.taken k v hk).mp htaken, hreport⟩

/-- An instruction defines a label that a constant without a usable operand and a checksum define
again: its value stands, and the other two lines are reported. -/
theorem first_definition_stands_three :
    let lines := [Text.ascii "A       NOP", Text.ascii "A       EQU  ?", Text.ascii "B       EQU  A+1",
      Text.ascii "A       CHK"]
    (definitions 0x8000 none lines).map Visit.label =
        [Text.ascii "A", Text.ascii "A", Text.ascii "B", Text.ascii "A"] ∧
      (run 0x8000 none lines).program.symbols.symbols =
        [⟨Text.ascii "A", 0x8000⟩, ⟨Text.ascii "B", 0x8001⟩] ∧
      (run 0x8000 none lines).program.diagnostics =
        #[⟨.duplicateSymbol, 2⟩, ⟨.duplicateSymbol, 4⟩] ∧
      FirstStands (definitions 0x8000 none lines) (run 0x8000 none lines).program :=
  ⟨by decide +kernel, by decide +kernel, by decide +kernel,
    (first_definition_stands 0x8000 none _).1⟩

end Assembly

end ColumnAssembler
