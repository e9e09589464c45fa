import ColumnAssembler.Proofs.LineStep

/-!
# The first pass as a whole

The pass is a fold of `Scan.scanLine` that stops at the first failure, so what every step keeps the
pass keeps (`scanLines_preserves`), and what every step that leaves room keeps holds of a pass that
was not stopped (`scanLines_preserves_ok`). Records are only ever added, one for each line: the
record of a line stands at the position of the line from the moment it is added.
-/

namespace ColumnAssembler

namespace Scan

/-- What every step keeps, the pass keeps, wherever it stops. -/
theorem scanLines_preserves {P : Scan → Prop} (cancelAt : Option Nat)
    (step : ∀ {s t : Scan} {source : SourceLine}, P s → Step s source t → P t)
    (lines : List Text) (s : Scan) (count : Nat) (hs : P s) :
    P (scanLines cancelAt s count lines).1 := by
  induction lines generalizing s count with
  | nil => exact hs
  | cons line rest ih =>
    have hline : P (s.scanLine (count + 1) line).1 := by
      rcases scanLine_step s (count + 1) line with ⟨hsame, _⟩ | ⟨source, _, hstep⟩
      · rw [hsame]
        exact hs
      · exact step hs hstep
    rw [scanLines]
    split
    · exact hs
    · split
      · next h => rwa [h] at hline
      · next t h => exact ih t (count + 1) (by rwa [h] at hline)

/-- What every step that leaves room keeps holds at the end of a pass that was not stopped. -/
theorem scanLines_preserves_ok {P : Scan → Prop} {cancelAt : Option Nat}
    (step : ∀ {s t : Scan} {source : SourceLine}, P s → Step s source t →
      t.limitFault? = none → P t)
    {lines : List Text} {s t : Scan} {count : Nat}
    (h : scanLines cancelAt s count lines = (t, none)) (hs : P s) : P t := by
  induction lines generalizing s count with
  | nil =>
    rw [scanLines, Prod.mk.injEq] at h
    exact h.1 ▸ hs
  | cons line rest ih =>
    rw [scanLines] at h
    split at h
    · simp at h
    · split at h
      · simp at h
      · next next hline =>
        obtain ⟨source, _, hstep, hroom⟩ := scanLine_ok hline
        exact ih h (step hs hstep hroom)

/-- Reading more lines goes on from where the lines before them ended. -/
theorem scanLines_append (cancelAt : Option Nat) (s : Scan) (count : Nat)
    (earlier later : List Text) :
    scanLines cancelAt s count (earlier ++ later) =
      match scanLines cancelAt s count earlier with
      | (t, some failure) => (t, some failure)
      | (t, none) => scanLines cancelAt t (count + earlier.length) later := by
  induction earlier generalizing s count with
  | nil => rfl
  | cons line rest ih =>
    rw [List.cons_append, scanLines, scanLines]
    split
    · rfl
    · split
      · rfl
      · rw [ih, List.length_cons, Nat.add_right_comm count 1, Nat.add_assoc count]

/-- The pass before the last line of a pass that was not stopped, and that line. -/
theorem scanLines_concat_ok {cancelAt : Option Nat} {s t : Scan} {count : Nat}
    {earlier : List Text} {line : Text}
    (h : scanLines cancelAt s count (earlier ++ [line]) = (t, none)) :
    ∃ before, scanLines cancelAt s count earlier = (before, none) ∧
      before.scanLine ((count + earlier.length : Nat) + 1) line = (t, none) := by
  rw [scanLines_append] at h
  split at h
  · simp at h
  · next before hbefore =>
    refine ⟨before, hbefore, ?_⟩
    rw [scanLines] at h
    split at h
    · simp at h
    · split at h
      · simp at h
      · next hline =>
        rw [scanLines, Prod.mk.injEq] at h
        rw [hline, h.1]

/-- A step adds one record, which stands on the line. -/
theorem Step.records {s t : Scan} {source : SourceLine} (h : Step s source t) :
    ∃ r : Record, r.source = source ∧ t.program.records = s.program.records.push r := by
  cases h with
  | directive h => exact ⟨_, rfl, h.records⟩
  | memory m become h => exact ⟨.memory m, become.place.1, h.records⟩

/-- A step leaves the program as complete as it was. -/
theorem Step.complete {s t : Scan} {source : SourceLine} (h : Step s source t) :
    t.program.complete = s.program.complete := by
  cases h with
  | directive h => exact h.complete
  | memory m become h => exact h.complete

/-- A step defines at most the label of its line. -/
theorem Step.symbols {s t : Scan} {source : SourceLine} (h : Step s source t) :
    s.program.symbols.GrowsBy source.label t.program.symbols := by
  cases h with
  | directive h => exact h.symbols
  | memory m become h => exact become.place.1 ▸ h.symbols

/-- Reading on only adds records. -/
theorem records_scanLines (cancelAt : Option Nat) (s : Scan) (count : Nat) (lines : List Text) :
    s.program.records.toList <+: (scanLines cancelAt s count lines).1.program.records.toList := by
  refine scanLines_preserves
    (P := fun t => s.program.records.toList <+: t.program.records.toList)
    cancelAt (fun hprefix hstep => ?_) lines s count List.prefix_rfl
  obtain ⟨r, _, hr⟩ := hstep.records
  rw [hr, Array.toList_push]
  exact hprefix.trans (List.prefix_append _ _)

end Scan

namespace Assembly

/-- The state in which the first pass over some lines begins. -/
def opening (origin : UInt16) (lines : List Text) : Scan :=
  (Scan.start origin).log .debug "Starting pass 1"
    [("lines", .number lines.length), ("origin", .address origin)]

/-- The state of the first pass once the given number of lines has been read. -/
def stateAfter (origin : UInt16) (cancelAt : Option Nat) (lines : List Text) (count : Nat) : Scan :=
  (Scan.scanLines cancelAt (opening origin lines) 0 (lines.take count)).1

/-- The state at the end of the first pass. -/
def scanned (origin : UInt16) (cancelAt : Option Nat) (lines : List Text) : Scan :=
  stateAfter origin cancelAt lines lines.length

variable {origin : UInt16} {cancelAt : Option Nat} {lines : List Text}

/-- At the end of the first pass all lines were tried. -/
theorem scanned_eq : scanned origin cancelAt lines =
    (Scan.scanLines cancelAt (opening origin lines) 0 lines).1 := by
  rw [scanned, stateAfter, List.take_length]

/-- What holds at the opening and is kept by every step holds all through the first pass. -/
theorem stateAfter_invariant {P : Scan → Prop} (hopen : P (opening origin lines))
    (step : ∀ {s t : Scan} {source : SourceLine}, P s → Scan.Step s source t → P t) (count : Nat) :
    P (stateAfter origin cancelAt lines count) :=
  Scan.scanLines_preserves cancelAt step (lines.take count) _ 0 hopen

/-- Records once added stay. -/
theorem records_stateAfter {n m : Nat} (h : n ≤ m) :
    (stateAfter origin cancelAt lines n).program.records.toList <+:
      (stateAfter origin cancelAt lines m).program.records.toList := by
  have hsplit := List.take_append_drop n (lines.take m)
  rw [List.take_take, Nat.min_eq_left h] at hsplit
  unfold stateAfter
  rw [← hsplit, Scan.scanLines_append]
  split
  · next hstop => exact hstop ▸ List.prefix_rfl
  · next hrest =>
    rw [hrest]
    exact Scan.records_scanLines _ _ _ _

/-- Memory records once added stay. -/
theorem memory_stateAfter {n m : Nat} (h : n ≤ m) :
    (stateAfter origin cancelAt lines n).program.memory <+:
      (stateAfter origin cancelAt lines m).program.memory := by
  rw [Program.memory_eq, Program.memory_eq]
  exact (records_stateAfter h).filterMap _

/-- A memory record stays as it was added up to the end of the first pass. -/
theorem memory_prefix_scanned (count : Nat) :
    (stateAfter origin cancelAt lines count).program.memory <+:
      (scanned origin cancelAt lines).program.memory := by
  rcases Nat.le_total count lines.length with hle | hge
  · exact memory_stateAfter hle
  · have hall : stateAfter origin cancelAt lines count = scanned origin cancelAt lines := by
      rw [scanned, stateAfter, stateAfter, List.take_of_length_le hge, List.take_length]
    exact hall ▸ List.prefix_rfl

/-- Every memory record is what a line became. -/
theorem becomes_of_mem_memory {count : Nat} {m : Memory}
    (hm : m ∈ (stateAfter origin cancelAt lines count).program.memory) :
    ∃ s source, Scan.Becomes s source m := by
  revert m
  refine stateAfter_invariant
    (P := fun s => ∀ {m}, m ∈ s.program.memory → ∃ s source, Scan.Becomes s source m)
    (fun hm => absurd hm List.not_mem_nil) ?_ count
  intro s t source hs hstep m hm
  cases hstep with
  | directive h =>
    rw [h.memory] at hm
    exact hs hm
  | memory added become h =>
    rw [h.memory, List.mem_append, List.mem_singleton] at hm
    rcases hm with hm | rfl
    · exact hs hm
    · exact ⟨s, source, become⟩

/-- A pass that was not stopped by some lines was not stopped by the first of them. -/
theorem stateAfter_ok {n k : Nat}
    (h : (Scan.scanLines cancelAt (opening origin lines) 0 (lines.take n)).2 = none)
    (hk : k ≤ n) : Scan.scanLines cancelAt (opening origin lines) 0 (lines.take k) =
      (stateAfter origin cancelAt lines k, none) := by
  have hsplit := List.take_append_drop k (lines.take n)
  rw [List.take_take, Nat.min_eq_left hk] at hsplit
  have hnone : (Scan.scanLines cancelAt (opening origin lines) 0 (lines.take k)).2 = none := by
    rw [← hsplit, Scan.scanLines_append] at h
    split at h
    · simp at h
    · next hok => rw [hok]
  rw [stateAfter, ← hnone]

/-- In a pass that was not stopped by some lines, each of them takes a step that leaves room. -/
theorem line_step {n k : Nat}
    (h : (Scan.scanLines cancelAt (opening origin lines) 0 (lines.take n)).2 = none)
    (hn : k < n) (hk : k < lines.length) :
    ∃ source, SourceLine.parse (k + 1) lines[k] = .ok source ∧
      Scan.Step (stateAfter origin cancelAt lines k) source
        (stateAfter origin cancelAt lines (k + 1)) ∧
      (stateAfter origin cancelAt lines (k + 1)).limitFault? = none := by
  have hnext := stateAfter_ok h (Nat.succ_le_of_lt hn)
  rw [List.take_succ_eq_append_getElem hk] at hnext
  obtain ⟨before, hbefore, hline⟩ := Scan.scanLines_concat_ok hnext
  rw [stateAfter_ok h (Nat.le_of_lt hn), Prod.mk.injEq] at hbefore
  rw [← hbefore.1, Nat.zero_add, List.length_take, Nat.min_eq_left (Nat.le_of_lt hk)] at hline
  exact Scan.scanLine_ok hline

/-- A pass that was not stopped by some lines has one record for each line read. -/
theorem size_records_stateAfter {n k : Nat}
    (h : (Scan.scanLines cancelAt (opening origin lines) 0 (lines.take n)).2 = none)
    (hn : k ≤ n) (hk : k ≤ lines.length) :
    (stateAfter origin cancelAt lines k).program.records.size = k := by
  induction k with
  | zero => rfl
  | succ k ih =>
    obtain ⟨source, _, hstep, _⟩ := line_step h hn hk
    obtain ⟨r, _, hr⟩ := hstep.records
    rw [hr, Array.size_push, ih (Nat.le_of_succ_le hn) (Nat.le_of_succ_le hk)]

/-- The record of a line is the one that its step adds. -/
theorem record_of_line {n k : Nat} {r : Record}
    (h : (Scan.scanLines cancelAt (opening origin lines) 0 (lines.take n)).2 = none)
    (hlength : n ≤ lines.length)
    (hr : (stateAfter origin cancelAt lines n).program.records.toList[k]? = some r) :
    ∃ (hk : k < lines.length) (source : SourceLine),
      SourceLine.parse (k + 1) lines[k] = .ok source ∧
      Scan.Step (stateAfter origin cancelAt lines k) source
        (stateAfter origin cancelAt lines (k + 1)) ∧
      (stateAfter origin cancelAt lines (k + 1)).program.records =
        (stateAfter origin cancelAt lines k).program.records.push r := by
  have hn : k < n := by
    have hsize := size_records_stateAfter h (Nat.le_refl n) hlength
    have hbound := (List.getElem?_eq_some_iff.mp hr).1
    rw [Array.length_toList] at hbound
    omega
  have hk : k < lines.length := Nat.lt_of_lt_of_le hn hlength
  obtain ⟨source, hparse, hstep, _⟩ := line_step h hn hk
  obtain ⟨added, _, hadded⟩ := hstep.records
  refine ⟨hk, source, hparse, hstep, ?_⟩
  have hsame : added = r := by
    have hprefix : (stateAfter origin cancelAt lines (k + 1)).program.records.toList <+:
        (stateAfter origin cancelAt lines n).program.records.toList := records_stateAfter hn
    have hat : (stateAfter origin cancelAt lines (k + 1)).program.records.toList[k]? =
        some added := by
      have hsize := size_records_stateAfter h (Nat.le_of_lt hn) (Nat.le_of_lt hk)
      rw [hadded, Array.toList_push]
      simp [hsize]
    obtain ⟨hbound, hget⟩ := List.getElem?_eq_some_iff.mp hat
    rw [List.prefix_iff_getElem?.mp hprefix k hbound, hget] at hr
    exact Option.some.inj hr
  rw [hadded, hsame]

/-- The whole pass as the pass over as many lines as there are. -/
theorem scanLines_take_length
    (h : (Scan.scanLines cancelAt (opening origin lines) 0 lines).2 = none) :
    (Scan.scanLines cancelAt (opening origin lines) 0 (lines.take lines.length)).2 = none := by
  rwa [List.take_length]

/-- The instruction of a line was created with the symbols known before the line. -/
theorem create?_of_record (h : (Scan.scanLines cancelAt (opening origin lines) 0 lines).2 = none)
    {k : Nat} {i : Instruction}
    (hi : (scanned origin cancelAt lines).program.records.toList[k]? =
      some (.memory (.instruction i))) :
    ∃ source address, Instruction.create? source address
      (stateAfter origin cancelAt lines k).program.symbols = some i := by
  obtain ⟨_, source, _, hstep, hrecords⟩ :=
    record_of_line (scanLines_take_length h) (Nat.le_refl _) hi
  cases hstep with
  | directive hd =>
    rw [hd.records, Array.push_eq_push] at hrecords
    exact absurd hrecords.1 (by simp)
  | memory m become hm =>
    rw [hm.records, Array.push_eq_push, Record.memory.injEq] at hrecords
    cases become with
    | checksum => exact absurd hrecords.1 (by simp)
    | instruction hcreate =>
      rw [← (Memory.instruction.inj hrecords.1)]
      exact ⟨source, _, hcreate⟩

end Assembly

end ColumnAssembler
