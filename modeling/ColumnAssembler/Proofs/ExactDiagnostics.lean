import ColumnAssembler.Proofs.FirstPassState

/-!
# Diagnostics are exactly the errors

Markers are set where records are created and resolved, and reported elsewhere. In the first pass a
line reports its label and then its marker, so the diagnostics come by ascending lines; in the
second pass the marker of every pending record is reported once it is resolved. A pending record has
no marker, so no marker is reported by both passes, and the diagnostics other than those for labels
are a rearrangement of the markers of the final records.
-/

namespace ColumnAssembler

namespace Diagnostic

/-- Whether the diagnostic reports the marker of a record. -/
def isMarker (d : Diagnostic) : Bool := d.kind != .duplicateSymbol

/-- One diagnostic of the first pass comes before another: it is on an earlier line, or it reports
the label of the line whose marker the other one reports. -/
def Precedes (a b : Diagnostic) : Prop :=
  a.line < b.line ∨ a.line = b.line ∧ a.kind = .duplicateSymbol ∧ b.kind ≠ .duplicateSymbol

/-- The diagnostic of a record reports its marker on its line. -/
theorem ofRecord?_eq_some {r : Record} {d : Diagnostic} (h : ofRecord? r = some d) :
    d.line = r.source.number ∧ d.isMarker = true := by
  obtain ⟨marker, _, rfl⟩ := Option.map_eq_some_iff.mp h
  refine ⟨rfl, ?_⟩
  cases marker <;> rfl

/-- A pending record has no diagnostic. -/
theorem ofRecord?_of_pending {r : Record} (h : r.isPending = true) : ofRecord? r = none := by
  match r, h with
  | .memory (.instruction i), h =>
    have hpending : i.encoding = .pending := by
      simpa [Record.isPending, Memory.isPending, Instruction.isPending] using h
    simp [ofRecord?, Record.marker?, Memory.marker?, Instruction.marker?, hpending]

/-- Only memory records have diagnostics. -/
theorem mem_memory_of_ofRecord? {records : List Record} {d : Diagnostic}
    (h : d ∈ records.filterMap ofRecord?) :
    ∃ m ∈ Record.memoryOf records, ∃ marker, m.marker? = some marker ∧
      d = ⟨.ofMarker marker, m.source.number⟩ := by
  obtain ⟨r, hr, hd⟩ := List.mem_filterMap.mp h
  obtain ⟨marker, hmarker, rfl⟩ := Option.map_eq_some_iff.mp hd
  cases r with
  | directive directive => simp [Record.marker?] at hmarker
  | memory m => exact ⟨m, List.mem_filterMap.mpr ⟨_, hr, rfl⟩, marker, hmarker, rfl⟩

end Diagnostic

namespace Record

/-- What the second pass finds for a record is the marker on its line. -/
theorem lateDiagnostic?_eq_some {table : SymbolTable} {r : Record} {d : Diagnostic}
    (h : lateDiagnostic? table r = some d) : d.line = r.source.number ∧ d.isMarker = true := by
  unfold lateDiagnostic? at h
  split at h
  · rw [← r.source_resolved table]
    exact Diagnostic.ofRecord?_eq_some h
  · simp at h

/-- Every record is reported once: by the first pass, or by the second if it was pending. -/
theorem perm_lateDiagnostic? (table : SymbolTable) (records : List Record) :
    (records.filterMap Diagnostic.ofRecord? ++ records.filterMap (lateDiagnostic? table)).Perm
      ((records.map (resolved table)).filterMap Diagnostic.ofRecord?) := by
  induction records with
  | nil => exact List.Perm.refl []
  | cons r rest ih =>
    rw [List.map_cons, List.filterMap_cons, List.filterMap_cons, List.filterMap_cons]
    cases hp : r.isPending with
    | true =>
      have hlate : lateDiagnostic? table r = Diagnostic.ofRecord? (r.resolved table) := by
        rw [lateDiagnostic?, hp, if_pos rfl]
      rw [Diagnostic.ofRecord?_of_pending hp, hlate]
      cases Diagnostic.ofRecord? (r.resolved table) with
      | none => exact ih
      | some d => exact List.perm_middle.trans (ih.cons d)
    | false =>
      have hlate : lateDiagnostic? table r = none := by
        rw [lateDiagnostic?, hp, if_neg Bool.false_ne_true]
      have hsame : r.resolved table = r := by
        cases r with
        | directive d => rfl
        | memory m => exact congrArg Record.memory (Memory.resolved_of_not_pending table hp)
      rw [hlate, hsame]
      cases Diagnostic.ofRecord? r with
      | none => exact ih
      | some d => exact ih.cons d

/-- The diagnostics of records on ascending lines are all different. -/
theorem nodup_ofRecord? {records : List Record}
    (h : records.Pairwise fun a b => a.source.number < b.source.number) :
    (records.filterMap Diagnostic.ofRecord?).Nodup := by
  refine List.Pairwise.filterMap _ (fun a b hab d hd e he hde => ?_) h
  have hline := (Diagnostic.ofRecord?_eq_some hd).1
  have hlater := (Diagnostic.ofRecord?_eq_some he).1
  rw [hde] at hline
  omega

end Record

namespace Scan

/-- The records of the first pass are on ascending lines. -/
theorem Numbered.ascending {count : Nat} {s : Scan} (h : Numbered count s) :
    s.program.records.toList.Pairwise fun a b => a.source.number < b.source.number := by
  rw [List.pairwise_iff_getElem]
  intro i j hi hj hij
  have hfirst := h.numbers i _ (List.getElem?_eq_getElem hi)
  have hsecond := h.numbers j _ (List.getElem?_eq_getElem hj)
  omega

/-- The diagnostics of the first pass, with the last line that has a record. -/
structure Diagnosed (count : Nat) (s : Scan) : Prop where
  /-- Every diagnostic was told, in order. -/
  told : s.told = s.program.diagnostics.toList
  /-- The diagnostics for markers are those of the records, in order. -/
  markers : s.program.diagnostics.toList.filter Diagnostic.isMarker =
    s.program.records.toList.filterMap Diagnostic.ofRecord?
  /-- The diagnostics come by ascending lines, that for a label before that for a marker. -/
  ordered : s.program.diagnostics.toList.Pairwise Diagnostic.Precedes
  /-- No diagnostic is on a later line. -/
  bounded : ∀ d ∈ s.program.diagnostics.toList, d.line ≤ count

/-- A line has at most one diagnostic for its label, on the line. -/
theorem mem_duplicates {s : Scan} {source : SourceLine} {d : Diagnostic}
    (h : d ∈ s.duplicates source) : d = ⟨.duplicateSymbol, source.number⟩ := by
  unfold duplicates SymbolTable.clash at h
  split at h
  · split at h
    · exact List.mem_singleton.mp h
    · simp at h
  · simp at h

/-- A line has at most one diagnostic for its record, on the line. -/
theorem mem_markers {s : Scan} {source : SourceLine} {d : Diagnostic}
    (h : d ∈ s.markers source) : d.line = source.number ∧ d.isMarker = true := by
  rw [markers, Option.mem_toList, Option.bind_eq_some_iff] at h
  obtain ⟨r, hr, hd⟩ := h
  rw [← source_of_record? hr]
  exact Diagnostic.ofRecord?_eq_some hd

/-- The diagnostic for the label of a line comes before that for its marker. -/
theorem pairwise_found (s : Scan) (source : SourceLine) :
    (s.duplicates source ++ s.markers source).Pairwise Diagnostic.Precedes := by
  have hone : (s.duplicates source).Pairwise Diagnostic.Precedes := by
    unfold duplicates SymbolTable.clash
    split
    · split <;> simp
    · simp
  have htwo : (s.markers source).Pairwise Diagnostic.Precedes := by
    unfold markers
    cases (s.record? source).bind Diagnostic.ofRecord? <;> simp
  refine List.pairwise_append.mpr ⟨hone, htwo, fun a ha b hb => ?_⟩
  obtain ⟨hline, hmarker⟩ := mem_markers hb
  rw [mem_duplicates ha]
  exact Or.inr ⟨hline.symm, rfl, by simpa [Diagnostic.isMarker] using hmarker⟩

/-- What a line finds is on the line. -/
theorem line_of_mem_found {s : Scan} {source : SourceLine} {d : Diagnostic}
    (h : d ∈ s.duplicates source ++ s.markers source) : d.line = source.number := by
  rcases List.mem_append.mp h with hlabel | hmarker
  · rw [mem_duplicates hlabel]
  · exact (mem_markers hmarker).1

/-- The line of the next number keeps the diagnostics exact. -/
theorem Diagnosed.step {s : Scan} {source : SourceLine} {count : Nat} (hs : Diagnosed count s)
    (hnumber : source.number = count + 1) : Diagnosed (count + 1) (s.scanSource source).1 := by
  have hadds := adds_scanSource s source
  refine ⟨?_, ?_, ?_, ?_⟩
  · rw [hadds.told, hadds.diagnostics, hs.told]
  · have hlabels : (s.duplicates source).filter Diagnostic.isMarker = [] := by
      rw [List.filter_eq_nil_iff]
      intro d hd
      rw [mem_duplicates hd]
      exact Bool.false_ne_true
    have hown : (s.markers source).filter Diagnostic.isMarker = s.markers source := by
      rw [List.filter_eq_self]
      exact fun d hd => (mem_markers hd).2
    have hrecord : (s.record? source).toList.filterMap Diagnostic.ofRecord? =
        s.markers source := by
      rw [Scan.markers]
      cases s.record? source with
      | none => rfl
      | some r => cases h : Diagnostic.ofRecord? r <;> simp [h]
    rw [hadds.diagnostics, records_scanSource, List.filter_append, List.filter_append, hs.markers,
      hlabels, hown, List.nil_append, List.filterMap_append, hrecord]
  · rw [hadds.diagnostics, List.pairwise_append]
    refine ⟨hs.ordered, pairwise_found s source, fun a ha b hb => Or.inl ?_⟩
    have hearlier := hs.bounded a ha
    have hhere := line_of_mem_found hb
    omega
  · intro d hd
    rw [hadds.diagnostics, List.mem_append] at hd
    rcases hd with hd | hd
    · have hearlier := hs.bounded d hd
      omega
    · have hhere := line_of_mem_found hd
      omega

end Scan

/-- The diagnostics of the records that were pending after the first pass, as they are in the
end. -/
def lateDiagnostics (before after : Program) : List Diagnostic :=
  (before.records.toList.zip after.records.toList).filterMap fun (r, final) =>
    if r.isPending then Diagnostic.ofRecord? final else none

/-- How the diagnostics of a program, and those that were told, agree with its records. The other
program is the one at the end of the first pass. -/
structure Reported (before after : Program) (told : List Diagnostic) : Prop where
  /-- Every marked record has exactly one diagnostic of its kind on its line. -/
  marked : ∀ m ∈ after.memory, ∀ marker, m.marker? = some marker →
    after.diagnostics.toList.count ⟨.ofMarker marker, m.source.number⟩ = 1
  /-- Every diagnostic other than for a label belongs to a marked record. -/
  belongs : ∀ d ∈ after.diagnostics.toList, d.kind ≠ .duplicateSymbol →
    ∃ m ∈ after.memory, ∃ marker, m.marker? = some marker ∧
      d = ⟨.ofMarker marker, m.source.number⟩
  /-- The diagnostics of the first pass come first, then those of the second. -/
  sequence : after.diagnostics.toList = before.diagnostics.toList ++ lateDiagnostics before after
  /-- The diagnostics of the first pass come by ascending lines. -/
  early : before.diagnostics.toList.Pairwise Diagnostic.Precedes
  /-- The diagnostics of the second pass come by ascending lines. -/
  late : (lateDiagnostics before after).Pairwise fun a b => a.line < b.line
  /-- What was told is the same sequence. -/
  observed : told = after.diagnostics.toList
  /-- The markers of the records decide nothing about emitting. -/
  emittable : after.isEmittable = true ↔ after.complete = true ∧ after.diagnostics = #[]

/-- A program in which every marked record has a diagnostic can be emitted exactly when it is
complete and has no diagnostic. -/
theorem Program.isEmittable_iff {p : Program}
    (h : ∀ m ∈ p.memory, ∀ marker, m.marker? = some marker →
      p.diagnostics.toList.count ⟨.ofMarker marker, m.source.number⟩ = 1) :
    p.isEmittable = true ↔ p.complete = true ∧ p.diagnostics = #[] := by
  rw [isEmittable, Bool.and_eq_true, Bool.and_eq_true, Array.isEmpty_iff, List.all_eq_true]
  constructor
  · exact fun hall => hall.1
  · refine fun hboth => ⟨hboth, fun m hm => ?_⟩
    cases hmarker : m.marker? with
    | none => rfl
    | some marker =>
      have hcount := h m hm marker hmarker
      rw [hboth.2] at hcount
      exact absurd hcount (by simp)

namespace Assembly

/-- The diagnostics of the first pass are exact, wherever it stops. -/
theorem diagnosed_scanned (origin : UInt16) (cancelAt : Option Nat) (lines : List Text) :
    ∃ last, Scan.Diagnosed last (scanned origin cancelAt lines) := by
  have hopen : Scan.Diagnosed 0 (opening origin lines) :=
    ⟨rfl, rfl, List.Pairwise.nil, fun d hd => absurd hd List.not_mem_nil⟩
  obtain ⟨last, hlast, _⟩ := Scan.scanLines_numbered (P := Scan.Diagnosed) cancelAt
    (fun hs hnumber _ => hs.step hnumber) lines (opening origin lines) 0 hopen
  rw [scanned_eq]
  exact ⟨last, hlast⟩

/-- The second pass tells what it reports. -/
theorem told_resolve (s : Scan) :
    (resolve s).events.toList.filterMap Event.diagnostic? = s.told ++
      (Resolution.run s.program.symbols s.program.records.toList).diagnostics.toList := by
  have htold : ∀ found : List Diagnostic,
      (found.map Event.diagnostic).filterMap Event.diagnostic? = found := by
    intro found
    rw [List.filterMap_map]
    exact List.filterMap_some
  unfold resolve
  dsimp only
  split <;> simp [stopped, finish, enter, Scan.log, Scan.withResolution, Scan.told, htold,
    List.filterMap_cons, Event.diagnostic?]

/-- A run tells its diagnostics in order. -/
theorem told_run (origin : UInt16) (cancelAt : Option Nat) (lines : List Text) :
    (run origin cancelAt lines).events.toList.filterMap Event.diagnostic? =
      (run origin cancelAt lines).program.diagnostics.toList := by
  obtain ⟨last, hdiagnosed⟩ := diagnosed_scanned origin cancelAt lines
  cases h : (Scan.scanLines cancelAt (opening origin lines) 0 lines).2 with
  | some failure =>
    rw [run_of_stopped h]
    exact hdiagnosed.told
  | none =>
    rw [run_of_scanned h, told_resolve, (resolve_program _).2.1, Array.toList_append,
      hdiagnosed.told]

/-- The second pass reports the records that were pending after the first. -/
theorem sequence_run (origin : UInt16) (cancelAt : Option Nat) (lines : List Text) :
    (run origin cancelAt lines).program.diagnostics.toList =
      (scanned origin cancelAt lines).program.diagnostics.toList ++
        lateDiagnostics (scanned origin cancelAt lines).program
          (run origin cancelAt lines).program := by
  obtain ⟨front, rest, hsplit, hrecords, hdiagnostics⟩ := records_run origin cancelAt lines
  have hzip : ∀ (g : Record → Record) (records : List Record),
      records.zip (records.map g) = records.map fun r => (r, g r) := by
    intro g records
    have hboth := List.zip_map' (f := id) (g := g) (l := records)
    rwa [List.map_id] at hboth
  have hrest : (rest.zip rest).filterMap (fun (r, final) =>
      if r.isPending then Diagnostic.ofRecord? final else none) = [] := by
    have hsame := hzip id rest
    rw [List.map_id] at hsame
    rw [hsame, List.filterMap_map, List.filterMap_eq_nil_iff]
    intro r _
    dsimp only [Function.comp_apply, id_eq]
    split
    · next hp => exact Diagnostic.ofRecord?_of_pending hp
    · rfl
  rw [hdiagnostics, lateDiagnostics, hsplit, hrecords, List.zip_append (by simp),
    List.filterMap_append, hrest, List.append_nil, hzip, List.filterMap_map]
  rfl

/-- The diagnostics for markers are a rearrangement of those of the final records. -/
theorem perm_markers_run (origin : UInt16) (cancelAt : Option Nat) (lines : List Text) :
    ((run origin cancelAt lines).program.diagnostics.toList.filter Diagnostic.isMarker).Perm
      ((run origin cancelAt lines).program.records.toList.filterMap Diagnostic.ofRecord?) := by
  obtain ⟨front, rest, hsplit, hrecords, hdiagnostics⟩ := records_run origin cancelAt lines
  obtain ⟨last, hdiagnosed⟩ := diagnosed_scanned origin cancelAt lines
  have hlate : (front.filterMap (Record.lateDiagnostic?
      (scanned origin cancelAt lines).program.symbols)).filter Diagnostic.isMarker =
      front.filterMap (Record.lateDiagnostic?
        (scanned origin cancelAt lines).program.symbols) := by
    rw [List.filter_eq_self]
    intro d hd
    obtain ⟨r, _, hr⟩ := List.mem_filterMap.mp hd
    exact (Record.lateDiagnostic?_eq_some hr).2
  rw [hdiagnostics, hrecords, List.filter_append, hlate, hdiagnosed.markers, hsplit,
    List.filterMap_append, List.filterMap_append, List.append_assoc]
  -- The markers of the kept rest stand between the two parts of the front.
  refine (List.Perm.append_left _ List.perm_append_comm).trans ?_
  rw [← List.append_assoc]
  exact (Record.perm_lateDiagnostic? _ front).append_right _

/-- The records of a run are on ascending lines. -/
theorem ascending_run (origin : UInt16) (cancelAt : Option Nat) (lines : List Text) :
    (run origin cancelAt lines).program.records.toList.Pairwise
      fun a b => a.source.number < b.source.number := by
  obtain ⟨front, rest, hsplit, hrecords, _⟩ := records_run origin cancelAt lines
  obtain ⟨last, hnumbered, _⟩ := numbered_stateAfter origin cancelAt lines lines.length
  have hscanned : (scanned origin cancelAt lines).program.records.toList.Pairwise
      fun a b => a.source.number < b.source.number := hnumbered.ascending
  have hnumbers : (run origin cancelAt lines).program.records.toList.map Record.source =
      (scanned origin cancelAt lines).program.records.toList.map Record.source := by
    rw [hrecords, hsplit, List.map_append, List.map_append, List.map_map]
    congr 1
    exact List.map_congr_left fun r _ => r.source_resolved _
  have hsources : ((scanned origin cancelAt lines).program.records.toList.map
      Record.source).Pairwise fun a b => a.number < b.number :=
    List.pairwise_map.mpr hscanned
  rw [← hnumbers, List.pairwise_map] at hsources
  exact hsources

/-- Every marked record of a run has exactly one diagnostic. -/
theorem count_marker_run (origin : UInt16) (cancelAt : Option Nat) (lines : List Text) {m : Memory}
    (hm : m ∈ (run origin cancelAt lines).program.memory) {marker : Marker}
    (hmarker : m.marker? = some marker) :
    (run origin cancelAt lines).program.diagnostics.toList.count
      ⟨.ofMarker marker, m.source.number⟩ = 1 := by
  have hkind : Diagnostic.isMarker ⟨.ofMarker marker, m.source.number⟩ = true := by
    cases marker <;> rfl
  have hmem : (⟨.ofMarker marker, m.source.number⟩ : Diagnostic) ∈
      (run origin cancelAt lines).program.records.toList.filterMap Diagnostic.ofRecord? := by
    refine List.mem_filterMap.mpr ⟨_, Program.mem_memory.mp hm, ?_⟩
    rw [Diagnostic.ofRecord?, Record.marker?, hmarker]
    rfl
  rw [← List.count_filter hkind, (perm_markers_run origin cancelAt lines).count_eq,
    (Record.nodup_ofRecord? (ascending_run origin cancelAt lines)).count, if_pos hmem]

/-- The diagnostics of the second pass come by ascending lines. -/
theorem pairwise_late_run (origin : UInt16) (cancelAt : Option Nat) (lines : List Text) :
    (lateDiagnostics (scanned origin cancelAt lines).program
      (run origin cancelAt lines).program).Pairwise fun a b => a.line < b.line := by
  have hlate := sequence_run origin cancelAt lines
  obtain ⟨front, rest, hsplit, hrecords, hdiagnostics⟩ := records_run origin cancelAt lines
  rw [hdiagnostics, List.append_cancel_left_eq] at hlate
  rw [← hlate]
  have hascending := ascending_run origin cancelAt lines
  rw [hrecords, List.pairwise_append, List.pairwise_map] at hascending
  refine List.Pairwise.filterMap _ (fun a b hab d hd e he => ?_) hascending.1
  rw [Record.source_resolved, Record.source_resolved] at hab
  rw [(Record.lateDiagnostic?_eq_some hd).1, (Record.lateDiagnostic?_eq_some he).1]
  exact hab

/-- The diagnostics of a run are exactly its errors, in the order in which the passes find them,
whether it completes or stops in either pass. -/
theorem diagnostics_report_errors (origin : UInt16) (cancelAt : Option Nat) (lines : List Text) :
    Reported (scanned origin cancelAt lines).program (run origin cancelAt lines).program
      ((run origin cancelAt lines).events.toList.filterMap Event.diagnostic?) where
  marked m hm marker hmarker := count_marker_run origin cancelAt lines hm hmarker
  belongs d hd hkind := by
    have hmarker : d.isMarker = true := by simpa [Diagnostic.isMarker] using hkind
    have hperm := perm_markers_run origin cancelAt lines
    rw [Program.memory_eq]
    exact Diagnostic.mem_memory_of_ofRecord?
      (hperm.mem_iff.mp (List.mem_filter.mpr ⟨hd, hmarker⟩))
  sequence := sequence_run origin cancelAt lines
  early := by
    obtain ⟨last, hdiagnosed⟩ := diagnosed_scanned origin cancelAt lines
    exact hdiagnosed.ordered
  late := pairwise_late_run origin cancelAt lines
  observed := told_run origin cancelAt lines
  emittable := Program.isEmittable_iff fun m hm marker hmarker =>
    count_marker_run origin cancelAt lines hm hmarker

/-- A line with a taken label and no mode reports both, in this order; the pending line before it is
reported behind them. -/
theorem diagnostics_report_errors_late :
    let lines := [Text.ascii "        JSR  LATER,X", Text.ascii "A       NOP",
      Text.ascii "A       JSR  $10", Text.ascii "LATER   NOP"]
    (run 0x8000 none lines).program.diagnostics =
        #[⟨.duplicateSymbol, 3⟩, ⟨.badAddressMode, 3⟩, ⟨.badAddressMode, 1⟩] ∧
      Reported (scanned 0x8000 none lines).program (run 0x8000 none lines).program
        ((run 0x8000 none lines).events.toList.filterMap Event.diagnostic?) :=
  ⟨by decide +kernel, diagnostics_report_errors 0x8000 none _⟩

end Assembly

end ColumnAssembler
