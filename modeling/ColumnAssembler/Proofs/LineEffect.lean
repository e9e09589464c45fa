import ColumnAssembler.Proofs.FirstPass

/-!
# What a line adds

The exact effect of a line on the records, the symbols and the diagnostics of the first pass. A line
adds its record, the symbol of its label if that is a first definition, and then its diagnostics:
one for a label that is defined already, and behind it one for the marker of its record. What is
found is told at once, in the same order. A line that fails on its mnemonic or its operand defines
nothing; a line that runs out of room has taken its full effect.
-/

namespace ColumnAssembler

/-- Whether a line of the class gives its label a value. -/
def LineClass.givesValue : LineClass → Bool
  | instruction | checksum | constant => true
  | comment | finish | origin => false

/-- A source line has the number it is read with. -/
theorem SourceLine.number_of_parse {number : Int} {line : Text} {source : SourceLine}
    (h : parse number line = .ok source) : source.number = number := by
  unfold parse at h
  dsimp only at h
  split at h
  · simp at h
  · rw [Except.ok.injEq] at h
    rw [← h]
    rfl

namespace SymbolTable

/-- What a definition adds to the symbols: nothing when the name is taken. -/
def added (table : SymbolTable) (name : Text) (value : UInt16) : List Symbol :=
  if table.has name then [] else [⟨name, value⟩]

/-- What a definition on a line finds: an error when the name is taken. -/
def clash (table : SymbolTable) (name : Text) (line : Int) : List Diagnostic :=
  if table.has name then [⟨.duplicateSymbol, line⟩] else []

end SymbolTable

namespace Scan

/-- The diagnostics told so far. -/
def told (s : Scan) : List Diagnostic := s.events.toList.filterMap Event.diagnostic?

/-- A state with some more symbols and diagnostics, the latter told as they were found. -/
structure Adds (s : Scan) (symbols : List Symbol) (found : List Diagnostic) (t : Scan) : Prop where
  /-- The symbols are added behind all others. -/
  symbols : t.program.symbols.symbols = s.program.symbols.symbols ++ symbols
  /-- The diagnostics are added behind all others. -/
  diagnostics : t.program.diagnostics.toList = s.program.diagnostics.toList ++ found
  /-- They are told in the same order. -/
  told : t.told = s.told ++ found

/-- A state adds nothing to itself. -/
theorem Adds.refl (s : Scan) : Adds s [] [] s :=
  ⟨(List.append_nil _).symm, (List.append_nil _).symm, (List.append_nil _).symm⟩

/-- One addition after the other. -/
theorem Adds.trans {s t u : Scan} {symbols more : List Symbol} {found later : List Diagnostic}
    (h : Adds s symbols found t) (k : Adds t more later u) :
    Adds s (symbols ++ more) (found ++ later) u where
  symbols := by rw [k.symbols, h.symbols, List.append_assoc]
  diagnostics := by rw [k.diagnostics, h.diagnostics, List.append_assoc]
  told := by rw [k.told, h.told, List.append_assoc]

/-- A report adds its diagnostic. -/
theorem adds_report (s : Scan) (d : Diagnostic) : Adds s [] [d] (s.report d) where
  symbols := (List.append_nil _).symm
  diagnostics := Array.toList_push
  told := by
    rw [Scan.told, report, Array.toList_push, List.filterMap_append]
    rfl

/-- A log entry adds nothing. -/
theorem adds_log (s : Scan) (level : LogLevel) (message : String)
    (fields : List (String × LogValue)) : Adds s [] [] (s.log level message fields) where
  symbols := (List.append_nil _).symm
  diagnostics := (List.append_nil _).symm
  told := by
    rw [Scan.told, log, Array.toList_push, List.filterMap_append]
    rfl

/-- The record of a directive comes with no symbol and no diagnostic. -/
theorem adds_addDirective {s t : Scan} {source : SourceLine} {symbols : List Symbol}
    {found : List Diagnostic} (h : Adds (s.addDirective source) symbols found t) :
    Adds s symbols found t := ⟨h.symbols, h.diagnostics, h.told⟩

/-- A definition adds its symbol, or a diagnostic when the name is taken. -/
theorem adds_define (s : Scan) (name : Text) (value : UInt16) (line : Int) :
    Adds s (s.program.symbols.added name value) (s.program.symbols.clash name line)
      (s.define name value line) := by
  cases htaken : s.program.symbols.has name with
  | true =>
    have hdefine : s.program.symbols.define? name value = none := by
      rw [SymbolTable.define?, htaken, if_pos rfl]
    rw [define, hdefine, SymbolTable.added, SymbolTable.clash, htaken, if_pos rfl, if_pos rfl]
    exact adds_report s _
  | false =>
    have hdefine : s.program.symbols.define? name value =
        some ⟨s.program.symbols.symbols ++ [⟨name, value⟩]⟩ := by
      rw [SymbolTable.define?, htaken, if_neg Bool.false_ne_true]
    rw [define, hdefine, SymbolTable.added, SymbolTable.clash, htaken, if_neg Bool.false_ne_true,
      if_neg Bool.false_ne_true]
    have hlog := adds_log { s with program := { s.program with
        symbols := ⟨s.program.symbols.symbols ++ [⟨name, value⟩]⟩ } } .debug "Symbol defined"
      [("name", .text name), ("value", .address value)]
    exact ⟨hlog.symbols.trans (List.append_nil _), hlog.diagnostics, hlog.told⟩

/-- The label of a line adds its symbol or a diagnostic, if there is one. -/
theorem adds_defineLabel (s : Scan) (source : SourceLine) (value : UInt16) :
    Adds s (if source.label.isEmpty then [] else s.program.symbols.added source.label value)
      (if source.label.isEmpty then [] else s.program.symbols.clash source.label source.number)
      (s.defineLabel source value) := by
  unfold defineLabel
  cases source.label.isEmpty with
  | true => exact Adds.refl s
  | false => exact adds_define s _ _ _

/-- The marker of a record adds its diagnostic, if there is one. -/
theorem adds_reportMarker (s : Scan) (r : Record) :
    Adds s [] (Diagnostic.ofRecord? r).toList (s.reportMarker r) := by
  unfold reportMarker
  cases Diagnostic.ofRecord? r with
  | none => exact Adds.refl s
  | some d => exact adds_report s d

/-- A memory record adds the symbol of its label, and its diagnostics. -/
theorem adds_addMemory (s : Scan) (m : Memory) :
    Adds s
      (if m.source.label.isEmpty then []
        else s.program.symbols.added m.source.label m.address)
      ((if m.source.label.isEmpty then []
        else s.program.symbols.clash m.source.label m.source.number) ++
        (Diagnostic.ofRecord? (.memory m)).toList)
      (s.addMemory m) := by
  have hlabel := adds_defineLabel (s.counted m) m.source m.address
  have hmarker := adds_reportMarker ((s.counted m).defineLabel m.source m.address) (.memory m)
  have hboth := hlabel.trans hmarker
  rw [List.append_nil] at hboth
  -- Counting the record before and moving the address counter behind leave all three alone.
  exact ⟨hboth.symbols, hboth.diagnostics, hboth.told⟩

/-- Running out of room is a fault of its own kind. -/
theorem limitFault?_kind (s : Scan) :
    s.limitFault?.all (fun fault => fault.kind == .resourceExhausted) = true := by
  unfold limitFault?
  split
  · rfl
  · split <;> rfl

/-- Whether a line defines its label: it has one, its class gives it a value, and the line did not
fail on its mnemonic or its operand. -/
def defines (s : Scan) (source : SourceLine) : Bool :=
  !source.label.isEmpty && source.classify.givesValue &&
    (s.scanSource source).2.all fun fault => fault.kind == .resourceExhausted

/-- The value that a line gives its label. -/
def labelValue (s : Scan) (source : SourceLine) : UInt16 :=
  match source.classify with
  | .constant => wordOf ((s.argument source.operand).toOption.getD 0)
  | _ => UInt16.ofNat s.address

/-- The record that a line adds. A line with an unknown mnemonic adds none. -/
def record? (s : Scan) (source : SourceLine) : Option Record :=
  match source.classify with
  | .instruction =>
    (Instruction.create? source (UInt16.ofNat s.address) s.program.symbols).map fun i =>
      .memory (.instruction i)
  | .checksum => some (.memory (.checksum ⟨source, UInt16.ofNat s.address,
      List.range' s.checksumStart (s.program.memoryIndices.size - s.checksumStart)⟩))
  | other => some (.directive ⟨source, other⟩)

/-- The symbols that a line adds. -/
def newSymbols (s : Scan) (source : SourceLine) : List Symbol :=
  if s.defines source then s.program.symbols.added source.label (s.labelValue source) else []

/-- The diagnostics that a line adds for its label. -/
def duplicates (s : Scan) (source : SourceLine) : List Diagnostic :=
  if s.defines source then s.program.symbols.clash source.label source.number else []

/-- The diagnostics that a line adds for its record. -/
def markers (s : Scan) (source : SourceLine) : List Diagnostic :=
  ((s.record? source).bind Diagnostic.ofRecord?).toList

/-- The record that a line adds stands on it. -/
theorem source_of_record? {s : Scan} {source : SourceLine} {r : Record}
    (h : s.record? source = some r) : r.source = source := by
  unfold record? at h
  split at h
  · obtain ⟨i, hcreate, rfl⟩ := Option.map_eq_some_iff.mp h
    exact (Instruction.samePlace_create? hcreate).1
  · rw [← Option.some.inj h]
    rfl
  · rw [← Option.some.inj h]
    rfl

/-- A line adds its record. -/
theorem records_scanSource (s : Scan) (source : SourceLine) :
    (s.scanSource source).1.program.records.toList =
      s.program.records.toList ++ (s.record? source).toList := by
  unfold scanSource record?
  cases hclass : source.classify with
  | comment => simp [checked, (directiveStep_add s source).records, hclass]
  | finish => simp [checked, (directiveStep_add s source).records, hclass]
  | origin => simp [(directiveStep_setOrigin s source).records, hclass]
  | constant => simp [(directiveStep_defineConstant s source).records, hclass]
  | checksum => simp [checked, (memoryStep_addChecksum s source).records]
  | instruction =>
    dsimp only
    cases hcreate : Instruction.create? source (UInt16.ofNat s.address) s.program.symbols with
    | none => simp
    | some i => simp [checked, (memoryStep_addMemory s i).records]

/-- Setting the start address adds nothing. -/
theorem adds_setOrigin (s : Scan) (source : SourceLine) :
    Adds s [] [] (s.setOrigin source).1 := by
  unfold setOrigin
  split
  · exact adds_log s _ _ _
  · split
    · exact Adds.refl s
    · next value _ =>
      have hlog := adds_log { s with address := value.toInt.toNat, program := { s.program with
        origin := wordOf value } } .debug "Origin set" [("address", .address (wordOf value))]
      exact ⟨hlog.symbols, hlog.diagnostics, hlog.told⟩

/-- A constant defines its label unless that is missing or its operand has no value; the operand of a
second definition is not looked at. -/
theorem defines_constant {s : Scan} {source : SourceLine} (hclass : source.classify = .constant) :
    s.defines source = (!source.label.isEmpty &&
      (s.program.symbols.has source.label || (s.argument source.operand).toOption.isSome)) := by
  have hargument : (s.addDirective source).argument source.operand =
      s.argument source.operand := rfl
  have hsymbols : (s.addDirective source).program.symbols = s.program.symbols := rfl
  rw [defines, hclass, scanSource, hclass]
  dsimp only
  rw [defineConstant, hargument, hsymbols]
  cases hlabel : source.label.isEmpty with
  | true => rfl
  | false =>
    cases htaken : s.program.symbols.has source.label with
    | true => simp [LineClass.givesValue, checked, limitFault?_kind]
    | false =>
      cases hvalue : s.argument source.operand with
      | error fault =>
        simp [argument_kind hvalue, Except.toOption]
      | ok value => simp [LineClass.givesValue, checked, limitFault?_kind, Except.toOption]

/-- A constant adds its symbol, or a diagnostic when the name is taken. -/
theorem adds_constant {s : Scan} {source : SourceLine} (hclass : source.classify = .constant) :
    Adds s (s.newSymbols source) (s.duplicates source)
      ((s.addDirective source).defineConstant source).1 := by
  have hargument : (s.addDirective source).argument source.operand =
      s.argument source.operand := rfl
  have hsymbols : (s.addDirective source).program.symbols = s.program.symbols := rfl
  rw [newSymbols, duplicates, defines_constant hclass, labelValue, hclass]
  dsimp only
  rw [defineConstant, hargument, hsymbols, SymbolTable.added, SymbolTable.clash]
  apply adds_addDirective
  cases hlabel : source.label.isEmpty with
  | true => exact Adds.refl (s.addDirective source)
  | false =>
    cases htaken : s.program.symbols.has source.label with
    | true => exact adds_report (s.addDirective source) ⟨.duplicateSymbol, source.number⟩
    | false =>
      cases hvalue : s.argument source.operand with
      | error fault => exact Adds.refl (s.addDirective source)
      | ok value =>
        have hdefine := adds_define (s.addDirective source) source.label (wordOf value)
          source.number
        rw [hsymbols, SymbolTable.added, SymbolTable.clash, htaken] at hdefine
        exact hdefine

/-- A line that takes a place in memory defines its label if it has one. -/
theorem defines_memory {s : Scan} {source : SourceLine} {m : Memory}
    (hrecord : s.record? source = some (.memory m)) :
    s.defines source = !source.label.isEmpty := by
  unfold record? at hrecord
  cases hclass : source.classify with
  | comment | finish | origin | constant => simp [hclass] at hrecord
  | checksum => simp [defines, scanSource, hclass, LineClass.givesValue, checked, limitFault?_kind]
  | instruction =>
    rw [hclass] at hrecord
    obtain ⟨i, hcreate, _⟩ := Option.map_eq_some_iff.mp hrecord
    simp [defines, scanSource, hclass, LineClass.givesValue, hcreate, checked, limitFault?_kind]

/-- A memory record stands at the value of the label of its line. -/
theorem address_of_record? {s : Scan} {source : SourceLine} {m : Memory}
    (hrecord : s.record? source = some (.memory m)) : m.address = s.labelValue source := by
  unfold record? at hrecord
  unfold labelValue
  cases hclass : source.classify with
  | comment | finish | origin | constant => simp [hclass] at hrecord
  | checksum =>
    simp only [hclass, Option.some.injEq, Record.memory.injEq] at hrecord
    rw [← hrecord]
    rfl
  | instruction =>
    rw [hclass] at hrecord
    obtain ⟨i, hcreate, hi⟩ := Option.map_eq_some_iff.mp hrecord
    rw [← Record.memory.inj hi]
    exact (Instruction.samePlace_create? hcreate).2

/-- A memory record adds the symbol of the label of its line, and the diagnostics of the line. -/
theorem adds_memory {s : Scan} {source : SourceLine} {m : Memory}
    (hrecord : s.record? source = some (.memory m)) :
    Adds s (s.newSymbols source) (s.duplicates source ++ s.markers source) (s.addMemory m) := by
  have hmemory := adds_addMemory s m
  have hsource : m.source = source := source_of_record? hrecord
  rw [hsource, address_of_record? hrecord] at hmemory
  rw [newSymbols, duplicates, markers, defines_memory hrecord, hrecord, Option.bind_some]
  cases hlabel : source.label.isEmpty <;> rw [hlabel] at hmemory <;> exact hmemory

/-- A line adds its symbol and its diagnostics, the one for its label before the one for its
marker. -/
theorem adds_scanSource (s : Scan) (source : SourceLine) :
    Adds s (s.newSymbols source) (s.duplicates source ++ s.markers source)
      (s.scanSource source).1 := by
  cases hclass : source.classify with
  | comment | finish =>
    have hnone : s.defines source = false := by simp [defines, hclass, LineClass.givesValue]
    rw [newSymbols, duplicates, hnone, markers, record?, hclass, scanSource, hclass]
    exact adds_addDirective (Adds.refl (s.addDirective source))
  | origin =>
    have hnone : s.defines source = false := by simp [defines, hclass, LineClass.givesValue]
    rw [newSymbols, duplicates, hnone, markers, record?, hclass, scanSource, hclass]
    exact adds_addDirective (adds_setOrigin (s.addDirective source) source)
  | constant =>
    have hmarkers : s.markers source = [] := by rw [markers, record?, hclass]; rfl
    rw [hmarkers, List.append_nil, scanSource, hclass]
    exact adds_constant hclass
  | checksum =>
    have hrecord : s.record? source = some (.memory (.checksum ⟨source, UInt16.ofNat s.address,
        List.range' s.checksumStart (s.program.memoryIndices.size - s.checksumStart)⟩)) := by
      rw [record?, hclass]
    have hmemory := adds_memory hrecord
    rw [scanSource, hclass]
    exact ⟨hmemory.symbols, hmemory.diagnostics, hmemory.told⟩
  | instruction =>
    rw [scanSource, hclass]
    dsimp only
    cases hcreate : Instruction.create? source (UInt16.ofNat s.address) s.program.symbols with
    | none =>
      have hnone : s.defines source = false := by
        simp [defines, scanSource, hclass, hcreate, Fault.kind]
      rw [newSymbols, duplicates, hnone, markers, record?, hclass, hcreate]
      exact Adds.refl s
    | some i => exact adds_memory (by rw [record?, hclass, hcreate]; rfl)

/-- A line that can be read is scanned as its source line. -/
theorem scanLine_of_parse {s : Scan} {number : Int} {line : Text} {source : SourceLine}
    (h : SourceLine.parse number line = .ok source) :
    s.scanLine number line =
      ((s.scanSource source).1, (s.scanSource source).2.map fun fault => ⟨number, fault⟩) := by
  rw [scanLine, h]

/-- A line that cannot be read changes nothing and stops the pass. -/
theorem scanLine_of_error {s : Scan} {number : Int} {line : Text} {cause : LineTooLong}
    (h : SourceLine.parse number line = .error cause) :
    s.scanLine number line = (s, some ⟨number, .lineTooLong cause⟩) := by
  rw [scanLine, h]

/-- What the line of the next number keeps holds at the end of the pass, for the number of the last
line with a record. That is the number of lines unless the pass was stopped. -/
theorem scanLines_numbered {P : Nat → Scan → Prop} (cancelAt : Option Nat)
    (step : ∀ {s : Scan} {source : SourceLine} {count : Nat}, P count s →
      source.number = count + 1 → Step s source (s.scanSource source).1 →
      P (count + 1) (s.scanSource source).1)
    (lines : List Text) (s : Scan) (count : Nat) (hs : P count s) :
    ∃ last, P last (scanLines cancelAt s count lines).1 ∧
      ((scanLines cancelAt s count lines).2 = none → last = count + lines.length) := by
  induction lines generalizing s count with
  | nil => exact ⟨count, hs, fun _ => rfl⟩
  | cons line rest ih =>
    rw [scanLines]
    split
    · exact ⟨count, hs, fun h => by simp at h⟩
    · cases hparse : SourceLine.parse (count + 1) line with
      | error cause =>
        rw [scanLine_of_error hparse]
        exact ⟨count, hs, fun h => by simp at h⟩
      | ok source =>
        rw [scanLine_of_parse hparse]
        have hnumber := SourceLine.number_of_parse hparse
        rcases scanSource_step s source with ⟨hsame, hfault⟩ | hstep
        · obtain ⟨fault, hfault⟩ := Option.isSome_iff_exists.mp hfault
          rw [hfault, hsame]
          exact ⟨count, hs, fun h => by simp at h⟩
        · have hnext := step hs hnumber hstep
          cases hfault : (s.scanSource source).2 with
          | some fault => exact ⟨count + 1, hnext, fun h => by simp at h⟩
          | none =>
            obtain ⟨last, hlast, hall⟩ := ih _ (count + 1) hnext
            refine ⟨last, hlast, fun h => ?_⟩
            have hlength := hall h
            rw [List.length_cons]
            omega

end Scan

end ColumnAssembler
