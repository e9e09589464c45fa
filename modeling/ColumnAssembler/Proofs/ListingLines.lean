import ColumnAssembler.Listing
import ColumnAssembler.Proofs.FirstPassState
import ColumnAssembler.Proofs.ObjectRoundTrip
import ColumnAssembler.Proofs.SourceText

/-!
# Listings and object files

A listing walks over the records of a program and an object file over its memory. The main statement
says that they agree. After the second pass every record takes as many bytes as it emits, so the
number of bytes in the summary of the listing is that of the object lines. If the program can be
emitted, the listing begins with one line for each record, and the assembly fields of these lines,
without the blanks behind them and without the empty ones, are the lines of the object file.
-/

namespace ColumnAssembler

namespace Numeral

/-- A decimal numeral has no line feed. -/
theorem lineFeed_not_mem_decimal (n : Nat) : Byte.lineFeed ∉ decimal n := by
  intro h
  obtain ⟨digit, hdigit⟩ := mem_render (by decide) h
  have hnone : ∀ d : Fin 10, Byte.lineFeed ≠ digitByte d := by decide
  exact hnone digit hdigit

/-- A decimal numeral with a sign has no line feed. -/
theorem lineFeed_not_mem_decimalInt (z : Int) : Byte.lineFeed ∉ decimalInt z := by
  unfold decimalInt renderInt
  split
  · exact List.not_mem_cons_of_ne_of_not_mem (by decide) (lineFeed_not_mem_decimal _)
  · exact lineFeed_not_mem_decimal _

end Numeral

namespace Text

/-- Lines that are closed by line feeds are read back, whatever follows. -/
theorem splitOn_closed (lines : List Text) (h : ∀ line ∈ lines, Byte.lineFeed ∉ line)
    (rest : Text) :
    List.splitOn Byte.lineFeed (lines.flatMap (fun line => line ++ [Byte.lineFeed]) ++ rest) =
      lines ++ List.splitOn Byte.lineFeed rest := by
  induction lines with
  | nil => rfl
  | cons line lines ih =>
    have hline := h line List.mem_cons_self
    rw [List.flatMap_cons, List.append_assoc, List.append_assoc, List.singleton_append,
      List.splitOn_append_cons_self_of_not_mem hline,
      ih fun other hother => h other (List.mem_cons_of_mem line hother), List.cons_append]

end Text

/-- The assembly field of a line of a listing: its first fifteen bytes without the blanks behind
them. -/
def Listing.field (line : Text) : Text := Text.withoutTrailingSpaces (line.take 15)

namespace Record

/-- What holds of all digits, of the colon and of the blank holds of every byte of an assembly
field. -/
theorem forall_mem_assembly {P : UInt8 → Prop} (contributions : Array UInt8) (r : Record)
    (hdigits : ∀ digit : Fin 16, P (Numeral.digitByte digit)) (hcolon : P Byte.colon)
    (hspace : P Byte.space) : ∀ b ∈ r.assembly contributions, P b := by
  intro b hb
  cases r with
  | directive d => exact absurd hb List.not_mem_nil
  | memory m =>
    by_cases hbytes : m.bytes contributions = []
    · rw [assembly, Memory.assembly_of_bytes_eq_nil hbytes] at hb
      exact absurd hb List.not_mem_nil
    · obtain ⟨count, _, hassembly⟩ := Memory.assembly_eq hbytes
      rw [assembly, hassembly] at hb
      rcases List.mem_append.mp hb with htext | hblank
      · exact ObjectLine.forall_mem_text _ hdigits hcolon hspace b htext
      · exact List.eq_of_mem_replicate hblank ▸ hspace

/-- The assembly field of a record with at most three bytes has at most fourteen. -/
theorem length_assembly_le {contributions : Array UInt8} {r : Record}
    (h : (r.bytes contributions).length ≤ Instruction.maxSize) :
    (r.assembly contributions).length ≤ 14 := by
  cases r with
  | directive d => exact Nat.zero_le 14
  | memory m =>
    have hmax : Instruction.maxSize = 3 := rfl
    have hlength : (m.bytes contributions).length ≤ Instruction.maxSize := h
    rw [assembly]
    by_cases hbytes : m.bytes contributions = []
    · rw [Memory.assembly_of_bytes_eq_nil hbytes]
      exact Nat.zero_le 14
    · obtain ⟨count, hcount, hassembly⟩ := Memory.assembly_eq hbytes
      rw [hassembly, List.length_append, ObjectLine.length_text, List.length_replicate]
      dsimp only
      omega

/-- The line of a record in a listing. -/
def listed (contributions : Array UInt8) (r : Record) : Text :=
  (r.assembly contributions).padRight 15
    ++ Text.padLeft Byte.space 2 (Numeral.decimalInt r.source.number) ++ [Byte.space]
    ++ r.source.raw

/-- The assembly field of a record is found in its line. -/
theorem field_listed {contributions : Array UInt8} {r : Record}
    (h : (r.bytes contributions).length ≤ Instruction.maxSize) :
    Listing.field (r.listed contributions) = (r.assembly contributions).withoutTrailingSpaces := by
  have hlength := length_assembly_le h
  have hascii : ∀ b ∈ r.assembly contributions, b < 0x80 :=
    forall_mem_assembly (P := fun b => b < 0x80) contributions r (by decide) (by decide) (by decide)
  have hglyphs := Text.length_glyphs_of_ascii hascii
  have hpadded : ((r.assembly contributions).padRight 15).length = 15 := by
    rw [Text.padRight, List.length_append, List.length_replicate, hglyphs]
    omega
  have htake : (r.listed contributions).take 15 = (r.assembly contributions).padRight 15 := by
    rw [listed, List.append_assoc, List.append_assoc]
    exact List.take_left' hpadded
  rw [Listing.field, htake, Text.padRight, Text.withoutTrailingSpaces_append_blanks]

/-- The assembly fields in the lines of records, without the empty ones, are those of the memory
records, if each of these has one to three bytes. -/
theorem filter_field_listed {contributions : Array UInt8} {records : List Record}
    (h : ∀ m ∈ memoryOf records, 1 ≤ (m.bytes contributions).length ∧
      (m.bytes contributions).length ≤ Instruction.maxSize) :
    ((records.map (listed contributions)).map Listing.field).filter (fun field => !field.isEmpty) =
      (memoryOf records).map fun m => (m.assembly contributions).withoutTrailingSpaces := by
  induction records with
  | nil => rfl
  | cons r records ih =>
    cases r with
    | directive d =>
      -- Nothing is left of a field of blanks, and it is dropped.
      have hfield : Listing.field (listed contributions (.directive d)) = [] :=
        field_listed (Nat.zero_le _)
      rw [List.map_cons, List.map_cons, hfield]
      exact ih h
    | memory m =>
      have hmemory : memoryOf (.memory m :: records) = m :: memoryOf records := rfl
      rw [hmemory] at h ⊢
      obtain ⟨hlow, hhigh⟩ := h m List.mem_cons_self
      have hfield : Listing.field (listed contributions (.memory m)) =
          (m.assembly contributions).withoutTrailingSpaces := field_listed (r := .memory m) hhigh
      have hkept : (m.assembly contributions).withoutTrailingSpaces ≠ [] := by
        rw [Memory.withoutTrailingSpaces_assembly (List.length_pos_iff.mp hlow),
          ← List.length_pos_iff, ObjectLine.length_text]
        omega
      rw [List.map_cons, List.map_cons, List.map_cons, hfield,
        List.filter_cons_of_pos (by simpa using hkept),
        ih fun other hother => h other (List.mem_cons_of_mem m hother)]

end Record

namespace Listing

/-- The lines for a record: that of the record, behind its error if it has one. -/
def recordLines (contributions : Array UInt8) (r : Record) : List Text :=
  ((Diagnostic.ofRecord? r).map Diagnostic.message).toList ++ [r.listed contributions]

/-- The line with the numbers of bytes and errors. -/
def trailer (size errors : Nat) : Text :=
  Text.ascii "--End assembly, " ++ Numeral.decimal size ++ Text.ascii " bytes, errors: "
    ++ Numeral.decimal errors

/-- The parts of a record are its lines, each closed by a line feed. -/
theorem textOf_recordParts (contributions : Array UInt8) (r : Record) :
    textOf (recordParts contributions r) =
      (recordLines contributions r).flatMap fun line => line ++ [Byte.lineFeed] := by
  unfold recordParts recordLines textOf
  cases Diagnostic.ofRecord? r <;> rfl

/-- The parts of records are their lines, each closed by a line feed. -/
theorem textOf_records (contributions : Array UInt8) (records : List Record) :
    textOf (records.flatMap (recordParts contributions)) =
      (records.flatMap (recordLines contributions)).flatMap
        fun line => line ++ [Byte.lineFeed] := by
  induction records with
  | nil => rfl
  | cons r records ih =>
    rw [List.flatMap_cons, List.flatMap_cons, List.flatMap_append, ← ih, ← textOf_recordParts]
    exact List.flatMap_append

/-- The listing of a complete program begins with the lines of its records, an empty line and the
line with the numbers. -/
theorem render_of_complete {p : Program} (h : p.complete = true) :
    ∃ rest, render p =
      (p.records.toList.flatMap (recordLines p.contributions) ++
        [[], trailer p.size p.errorCount]).flatMap (fun line => line ++ [Byte.lineFeed]) ++
          rest := by
  have hclosing : textOf (closingParts p) =
      [[], trailer p.size p.errorCount].flatMap (fun line => line ++ [Byte.lineFeed]) ++
        Byte.lineFeed :: textOf (tableParts .alphabetical p.symbols.byName
          ++ tableParts .numerical p.symbols.byValue) := by
    simp [textOf, closingParts, ListingPart.text, trailer]
  have hparts : render p = textOf (p.records.toList.flatMap (recordParts p.contributions)) ++
      textOf (closingParts p) := by
    rw [render, parts, if_pos h]
    exact List.flatMap_append
  rw [hparts, textOf_records, hclosing, ← List.append_assoc, ← List.flatMap_append]
  exact ⟨_, rfl⟩

/-- The error line of a record has no line feed. -/
theorem lineFeed_not_mem_message {r : Record} {d : Diagnostic}
    (h : Diagnostic.ofRecord? r = some d) : Byte.lineFeed ∉ d.message := by
  obtain ⟨marker, _, rfl⟩ := Option.map_eq_some_iff.mp h
  have hkind : Byte.lineFeed ∉ (DiagnosticKind.ofMarker marker).name := by
    cases marker <;> decide
  have hbetween : Byte.lineFeed ∉ Text.ascii " in line: " := by decide
  rw [Diagnostic.message, List.mem_append, List.mem_append, not_or, not_or]
  exact ⟨⟨hkind, hbetween⟩, Numeral.lineFeed_not_mem_decimalInt _⟩

/-- The line of a record has no line feed if its source text has none. -/
theorem lineFeed_not_mem_listed {r : Record} (hraw : Byte.lineFeed ∉ r.source.raw)
    (contributions : Array UInt8) : Byte.lineFeed ∉ r.listed contributions := by
  have hfield : Byte.lineFeed ∉ (r.assembly contributions).padRight 15 := by
    rw [Text.padRight, List.mem_append, not_or]
    refine ⟨fun h => ?_, fun h => absurd (List.eq_of_mem_replicate h) (by decide)⟩
    exact Record.forall_mem_assembly (P := fun b => b ≠ Byte.lineFeed) contributions r (by decide)
      (by decide) (by decide) _ h rfl
  have hnumber : Byte.lineFeed ∉
      Text.padLeft Byte.space 2 (Numeral.decimalInt r.source.number) := by
    rw [Text.padLeft, List.mem_append, not_or]
    exact ⟨fun h => absurd (List.eq_of_mem_replicate h) (by decide),
      Numeral.lineFeed_not_mem_decimalInt _⟩
  rw [Record.listed, List.mem_append, List.mem_append, List.mem_append, not_or, not_or, not_or]
  exact ⟨⟨⟨hfield, hnumber⟩, by decide⟩, hraw⟩

/-- The line with the numbers has no line feed. -/
theorem lineFeed_not_mem_trailer (size errors : Nat) : Byte.lineFeed ∉ trailer size errors := by
  have hfront : Byte.lineFeed ∉ Text.ascii "--End assembly, " := by decide
  have hbetween : Byte.lineFeed ∉ Text.ascii " bytes, errors: " := by decide
  simp [trailer, hfront, hbetween, Numeral.lineFeed_not_mem_decimal]

/-- The lines of the listing of a complete program, if its source has no line feeds inside of
lines: those of the records in order, an empty line, the line with the numbers, and others. -/
theorem splitOn_render {p : Program} (hcomplete : p.complete = true)
    (hraw : ∀ r ∈ p.records.toList, Byte.lineFeed ∉ r.source.raw) :
    ∃ later, List.splitOn Byte.lineFeed (render p) =
      p.records.toList.flatMap (recordLines p.contributions) ++
        [] :: trailer p.size p.errorCount :: later := by
  obtain ⟨rest, hrender⟩ := render_of_complete hcomplete
  have hlines : ∀ line ∈ p.records.toList.flatMap (recordLines p.contributions) ++
      [[], trailer p.size p.errorCount], Byte.lineFeed ∉ line := by
    intro line hline
    rcases List.mem_append.mp hline with hrecord | hclosing
    · obtain ⟨r, hr, hline⟩ := List.mem_flatMap.mp hrecord
      rcases List.mem_append.mp hline with herror | hown
      · obtain ⟨d, hd, rfl⟩ := Option.map_eq_some_iff.mp (Option.mem_toList.mp herror)
        exact lineFeed_not_mem_message hd
      · rw [List.mem_singleton.mp hown]
        exact lineFeed_not_mem_listed (hraw r hr) _
    · rcases List.mem_cons.mp hclosing with rfl | htrailer
      · exact List.not_mem_nil
      · rw [List.mem_singleton.mp htrailer]
        exact lineFeed_not_mem_trailer _ _
  rw [hrender, Text.splitOn_closed _ hlines, List.append_assoc]
  exact ⟨_, rfl⟩

/-- Without markers there is one line for each record. -/
theorem flatMap_recordLines {contributions : Array UInt8} {records : List Record}
    (h : ∀ r ∈ records, r.marker? = none) :
    records.flatMap (recordLines contributions) = records.map (Record.listed contributions) := by
  induction records with
  | nil => rfl
  | cons r records ih =>
    have hnone : Diagnostic.ofRecord? r = none := by
      rw [Diagnostic.ofRecord?, h r List.mem_cons_self]
      rfl
    rw [List.flatMap_cons, recordLines, hnone, List.map_cons,
      ih fun other hother => h other (List.mem_cons_of_mem r hother)]
    rfl

end Listing

namespace Memory

/-- Records that emit as many bytes as they take emit together what they take together. -/
theorem total_eq_length {contributions : Array UInt8} {memory : List Memory}
    (h : ∀ m ∈ memory, (m.bytes contributions).length = m.length) :
    total memory = (memory.flatMap (bytes contributions)).length := by
  induction memory with
  | nil => rfl
  | cons m memory ih =>
    rw [total, List.flatMap_cons, List.length_append, h m List.mem_cons_self,
      ih fun other hother => h other (List.mem_cons_of_mem m hother)]

/-- A marked record emits nothing. -/
theorem bytes_of_marked {m : Memory} (h : m.marker? ≠ none) (contributions : Array UInt8) :
    m.bytes contributions = [] := by
  cases m with
  | checksum c => exact absurd rfl h
  | instruction i =>
    have hmarker : i.marker? ≠ none := h
    rw [bytes]
    unfold Instruction.marker? at hmarker
    unfold Instruction.bytes
    split at hmarker
    · next hmarked => rw [hmarked]
    · exact absurd rfl hmarker

/-- The contribution of a record is read off those of the records before it. -/
theorem getElem?_contributions {memory : List Memory} {k : Nat} {m : Memory}
    (h : memory[k]? = some m) :
    (contributions memory)[k]? = some (m.contribution (contributions (memory.take k))) := by
  obtain ⟨hk, hm⟩ := List.getElem?_eq_some_iff.mp h
  have hlength : (memory.take k).length = k := List.length_take_of_le (Nat.le_of_lt hk)
  have hsplit : memory = memory.take k ++ [m] ++ memory.drop (k + 1) := by
    rw [← hm, List.take_append_getElem, List.take_append_drop]
  have hbound : k < (memory.take k ++ [m]).length := by
    rw [List.length_append, hlength, List.length_singleton]
    exact Nat.lt_succ_self k
  have hown := contributions_append (memory.take k ++ [m]) (memory.drop (k + 1)) hbound
  rw [← hsplit, contributions_concat] at hown
  have hsize : (contributions (memory.take k)).size = k := by rw [size_contributions, hlength]
  rw [hown, Array.getElem?_push, if_pos hsize.symm]

end Memory

/-- What a record takes, what it emits and what a listing shows of it agree. -/
structure Record.Agrees (contributions : Array UInt8) (r : Record) : Prop where
  /-- It takes as many bytes as it emits. -/
  length : r.length = (r.bytes contributions).length
  /-- With a marker it takes none, emits none and shows none. -/
  marked : r.marker? ≠ none →
    r.length = 0 ∧ r.bytes contributions = [] ∧ r.assembly contributions = []

/-- A record that is not pending takes what it emits, and nothing with a marker. -/
theorem Record.agrees_of_not_pending {r : Record} (h : r.isPending = false)
    (contributions : Array UInt8) : r.Agrees contributions := by
  cases r with
  | directive d => exact ⟨rfl, fun hmarker => absurd rfl hmarker⟩
  | memory m =>
    have hlength := Memory.length_bytes h contributions
    refine ⟨hlength.symm, fun hmarker => ?_⟩
    have hnone := Memory.bytes_of_marked hmarker contributions
    rw [hnone] at hlength
    exact ⟨hlength.symm, hnone, Memory.assembly_of_bytes_eq_nil hnone⟩

/-- No record of a program that can be emitted is marked. -/
theorem Program.marker?_record_eq_none {p : Program} (h : p.isEmittable = true) {r : Record}
    (hr : r ∈ p.records.toList) : r.marker? = none := by
  cases r with
  | directive d => rfl
  | memory m => exact marker?_eq_none h (mem_memory.mpr hr)

namespace Assembly

variable {origin : UInt16} {cancelAt : Option Nat} {lines : List Text}

/-- No record of a run that completes is pending. -/
theorem Completed.isPending_record (h : Completed origin cancelAt lines) {r : Record}
    (hr : r ∈ (run origin cancelAt lines).program.records.toList) : r.isPending = false := by
  rw [h.records, List.mem_map] at hr
  obtain ⟨first, _, rfl⟩ := hr
  cases first with
  | directive d => rfl
  | memory m => exact m.isPending_resolved _

/-- The size of a program that is complete is the number of bytes of its object lines. -/
theorem Completed.size (h : Completed origin cancelAt lines) :
    (run origin cancelAt lines).program.size =
      ((ObjectFile.lines (run origin cancelAt lines).program).flatMap ObjectLine.data).length := by
  rw [Program.size_eq, ObjectFile.lines, List.flatMap_map]
  apply Memory.total_eq_length
  intro m hm
  rw [h.memory, List.mem_map] at hm
  obtain ⟨first, _, rfl⟩ := hm
  exact Memory.length_bytes (first.isPending_resolved _) _

/-- Every record of a run that completes stands on a line. -/
theorem Completed.parsed (h : Completed origin cancelAt lines) {r : Record}
    (hr : r ∈ (run origin cancelAt lines).program.records.toList) :
    ∃ line ∈ lines, ∃ number, SourceLine.parse number line = .ok r.source := by
  obtain ⟨k, hk⟩ := List.getElem?_of_mem hr
  obtain ⟨hbound, hparse⟩ := h.parse_record hk
  exact ⟨_, List.getElem_mem hbound, k + 1, hparse⟩

/-- A line without line feeds has none in the source text of its record. -/
theorem Completed.lineFeed_not_mem_raw (h : Completed origin cancelAt lines)
    (hlines : ∀ line ∈ lines, Byte.lineFeed ∉ line) {r : Record}
    (hr : r ∈ (run origin cancelAt lines).program.records.toList) :
    Byte.lineFeed ∉ r.source.raw := by
  obtain ⟨line, hline, number, hparse⟩ := h.parsed hr
  intro hmem
  exact hlines line hline (SourceLine.mem_of_mem_raw hparse (by decide) (by decide) hmem)

/-- The listing, the object file and the size of a complete program agree, if its lines have no line
feeds inside. Every record takes what it emits, and a marked one nothing; the size is the number of
bytes in the object lines, and stands in the listing behind the records. If the program can be
emitted, the listing begins with one line for each record, and the assembly fields of these lines
that are not empty, joined by line feeds, are the object file. -/
theorem listing_agrees_with_object_file (origin : UInt16) (cancelAt : Option Nat)
    (lines : List Text) (hlines : ∀ line ∈ lines, Byte.lineFeed ∉ line)
    (hcomplete : (run origin cancelAt lines).program.complete = true) :
    let p := (run origin cancelAt lines).program
    let listed := List.splitOn Byte.lineFeed (Listing.render p)
    let total := ((ObjectFile.lines p).flatMap ObjectLine.data).length
    (∀ r ∈ p.records.toList, r.Agrees p.contributions) ∧
      (∀ (k : Nat) (m : Memory), p.memory[k]? = some m → m.marker? ≠ none →
        p.contributions[k]? = some 0) ∧
      p.size = total ∧
      (∃ later, listed = p.records.toList.flatMap (Listing.recordLines p.contributions) ++
        [] :: Listing.trailer total p.errorCount :: later) ∧
      (p.isEmittable = true →
        listed.take p.records.size = p.records.toList.map (Record.listed p.contributions) ∧
        List.intercalate [Byte.lineFeed]
          (((listed.take p.records.size).map Listing.field).filter fun field => !field.isEmpty) =
            ObjectFile.encode p) := by
  intro p listed total
  have hcompleted := completed_of_complete hcomplete
  have hsize : p.size = total := hcompleted.size
  obtain ⟨later, hlisted⟩ := Listing.splitOn_render hcomplete
    fun r hr => hcompleted.lineFeed_not_mem_raw hlines hr
  have hsummed : listed = p.records.toList.flatMap (Listing.recordLines p.contributions) ++
      [] :: Listing.trailer total p.errorCount :: later := by rw [← hsize]; exact hlisted
  refine ⟨fun r hr => Record.agrees_of_not_pending (hcompleted.isPending_record hr) _,
    fun k m hm hmarker => ?_, hsize, ⟨later, hsummed⟩, fun emittable => ?_⟩
  · have hown := Memory.getElem?_contributions hm
    rw [Memory.contribution, Memory.bytes_of_marked hmarker] at hown
    exact hown
  · have hunmarked := fun r hr => Program.marker?_record_eq_none emittable (r := r) hr
    have htake : listed.take p.records.size =
        p.records.toList.map (Record.listed p.contributions) := by
      rw [hsummed, Listing.flatMap_recordLines hunmarked]
      exact List.take_left' (by rw [List.length_map, Array.length_toList])
    refine ⟨htake, ?_⟩
    rw [htake, ObjectFile.encode, p.memory_eq, Record.filter_field_listed]
    intro m hm
    rw [← p.memory_eq] at hm
    exact length_bytes_of_isEmittable emittable hm _

/-- A program with a comment, a forward reference and a checksum, whose listing and object file
agree. -/
theorem listing_agrees_with_object_file_three :
    let lines := [Text.ascii "* START", Text.ascii "        JMP  LATER", Text.ascii "LATER   CHK"]
    let p := (run 0x8000 none lines).program
    let listed := List.splitOn Byte.lineFeed (Listing.render p)
    p.complete = true ∧ p.isEmittable = true ∧ p.size = 4 ∧
      listed.take 3 = [Text.ascii "                1 * START",
        Text.ascii "8000: 4C 03 80  2         JMP  LATER",
        Text.ascii "8003: CF        3 LATER   CHK"] ∧
      List.intercalate [Byte.lineFeed]
        (((listed.take 3).map Listing.field).filter fun field => !field.isEmpty) =
          ObjectFile.encode p := by
  intro lines p listed
  have hrun : p.complete = true ∧ p.isEmittable = true ∧ p.size = 4 ∧ p.records.size = 3 ∧
      listed.take 3 = [Text.ascii "                1 * START",
        Text.ascii "8000: 4C 03 80  2         JMP  LATER",
        Text.ascii "8003: CF        3 LATER   CHK"] := by decide +kernel
  obtain ⟨hcomplete, emittable, hsize, hrecords, htake⟩ := hrun
  have hlines : lines.all (fun line => !line.contains Byte.lineFeed) = true := by decide +kernel
  have hagrees := listing_agrees_with_object_file 0x8000 none lines
    (fun line hline => by simpa using List.all_eq_true.mp hlines line hline) hcomplete
  obtain ⟨_, hencode⟩ := hagrees.2.2.2.2 emittable
  exact ⟨hcomplete, emittable, hsize, htake, hrecords ▸ hencode⟩

end Assembly

end ColumnAssembler
