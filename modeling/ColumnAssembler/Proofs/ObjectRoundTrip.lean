import ColumnAssembler.Proofs.ObjectText
import ColumnAssembler.Proofs.SecondPass
import ColumnAssembler.Verification

/-!
# Object files read back

A program that can be emitted has no memory record without bytes: the run has completed, so every
instruction is encoded, and none is marked. Hence no line of its object file is blank, and reading
the file gives back the object lines of the program, each with one to three bytes. Verification
compares the lines read with those of the program and finds nothing exactly when they are the same.
-/

namespace ColumnAssembler

namespace LineReading

/-- A line that a text with line feeds between its lines can hold: it is not blank, not too long,
has no line feed and does not end with a carriage return. -/
structure Plain (line : Text) : Prop where
  /-- There is something on the line. -/
  nonempty : line ≠ []
  /-- The line has no end within it. -/
  whole : Byte.lineFeed ∉ line
  /-- No byte is taken for a part of the line end. -/
  ending : line.getLast? ≠ some Byte.carriageReturn
  /-- The reader has room for the line. -/
  room : line.length ≤ maxLength

/-- The bytes of a line are collected up to its end. -/
theorem readFrom_append {line : Text} (hwhole : Byte.lineFeed ∉ line) (done : Array Text)
    (collected : Text) {length : Nat} (hroom : length + line.length ≤ maxLength) (rest : Text) :
    readFrom done collected length (line ++ rest) =
      readFrom done (line.reverse ++ collected) (length + line.length) rest := by
  induction line generalizing collected length with
  | nil => rfl
  | cons b line ih =>
    rw [List.mem_cons, not_or] at hwhole
    rw [List.length_cons] at hroom
    rw [List.cons_append, readFrom, if_neg (Ne.symm hwhole.1), if_neg (by omega),
      ih hwhole.2 _ (by omega), List.reverse_cons, List.append_assoc, List.length_cons,
      Nat.add_assoc, Nat.add_comm 1]
    rfl

/-- A plain line is closed with all its bytes. -/
theorem Plain.close {line : Text} (h : Plain line) : close line.reverse = line := by
  have hstart : [Byte.carriageReturn].isPrefixOf line.reverse = false := by
    apply eq_false_of_ne_true
    intro hprefix
    obtain ⟨rest, hrest⟩ := List.isPrefixOf_iff_prefix.mp hprefix
    apply h.ending
    rw [← List.head?_reverse, ← hrest]
    rfl
  rw [LineReading.close, Text.withoutStart, hstart, if_neg Bool.false_ne_true,
    List.reverse_reverse]

/-- Plain lines with line feeds between them are read as they are. -/
theorem readFrom_intercalate {lines : List Text} (h : ∀ line ∈ lines, Plain line)
    (done : Array Text) :
    readFrom done [] 0 (List.intercalate [Byte.lineFeed] lines) =
      ⟨done ++ lines.toArray, none⟩ := by
  induction lines generalizing done with
  | nil => simp [List.intercalate, readFrom]
  | cons line rest ih =>
    have hline := h line List.mem_cons_self
    have hroom : 0 + line.length ≤ maxLength := by
      have := hline.room
      omega
    -- The last line has no line feed behind it and is kept because it is not blank.
    cases rest with
    | nil =>
      have hsome : line.reverse.isEmpty = false := by
        rw [List.isEmpty_eq_false_iff, ne_eq, List.reverse_eq_nil_iff]
        exact hline.nonempty
      have hread := readFrom_append hline.whole done [] hroom []
      rw [List.append_nil, List.append_nil] at hread
      rw [List.intercalate_singleton, hread, readFrom, hsome, if_neg Bool.false_ne_true,
        hline.close]
      simp
    | cons next others =>
      rw [List.intercalate_cons_cons, List.append_assoc,
        readFrom_append hline.whole done [] hroom, List.append_nil, List.singleton_append, readFrom,
        if_pos rfl, hline.close, ih fun other hother => h other (List.mem_cons_of_mem _ hother)]
      simp

end LineReading

/-- The text of an object line that is not too long is a plain line. -/
theorem ObjectLine.plain_text {line : ObjectLine}
    (hsize : line.data.length ≤ Instruction.maxSize) : LineReading.Plain line.text := by
  have hlength := line.length_text
  have hmax : Instruction.maxSize = 3 := rfl
  have hreader : LineReading.maxLength = 65535 := rfl
  refine ⟨?_, ?_, ?_, by omega⟩
  · rw [← List.length_pos_iff]
    omega
  · intro hmem
    exact line.forall_mem_text (P := fun b => b ≠ Byte.lineFeed) (by decide) (by decide) (by decide)
      _ hmem rfl
  · intro hlast
    exact line.forall_mem_text (P := fun b => b ≠ Byte.carriageReturn) (by decide) (by decide)
      (by decide) _ (List.mem_of_getLast? hlast) rfl

namespace ObjectFile

/-- The texts of object lines with data are read as the lines. -/
theorem parseLines_text {objects : List ObjectLine} (h : ∀ line ∈ objects, line.data ≠ [])
    (done : Array ObjectLine) :
    parseLines done (objects.map ObjectLine.text) = .ok (done ++ objects.toArray) := by
  induction objects generalizing done with
  | nil => simp [parseLines]
  | cons line rest ih =>
    rw [List.map_cons, parseLines, parseLine_text (h line List.mem_cons_self)]
    dsimp only
    rw [ih fun other hother => h other (List.mem_cons_of_mem _ hother)]
    simp

/-- The object file of a program without blank records has the texts of its object lines. -/
theorem encode_eq {p : Program} (h : ∀ line ∈ lines p, line.data ≠ []) :
    encode p = List.intercalate [Byte.lineFeed] ((lines p).map ObjectLine.text) := by
  have htexts : p.memory.map (fun m => (m.assembly p.contributions).withoutTrailingSpaces) =
      (lines p).map ObjectLine.text := by
    rw [lines, List.map_map]
    apply List.map_congr_left
    intro m hm
    have hline : ⟨m.address, m.bytes p.contributions⟩ ∈ lines p := List.mem_map.mpr ⟨m, hm, rfl⟩
    exact Memory.withoutTrailingSpaces_assembly (h _ hline)
  rw [encode, htexts]

/-- An object file reads back as the object lines of the program, if each of these has data of the
size of an instruction. -/
theorem parse_encode {p : Program}
    (h : ∀ line ∈ lines p, 1 ≤ line.data.length ∧ line.data.length ≤ Instruction.maxSize) :
    parse (encode p) = .ok (lines p) := by
  have hdata : ∀ line ∈ lines p, line.data ≠ [] := fun line hline =>
    List.length_pos_iff.mp (h line hline).1
  have hplain : ∀ t ∈ (lines p).map ObjectLine.text, LineReading.Plain t := by
    intro t ht
    obtain ⟨line, hline, rfl⟩ := List.mem_map.mp ht
    exact ObjectLine.plain_text (h line hline).2
  have hreading : LineReading.ofText (encode p) =
      ⟨((lines p).map ObjectLine.text).toArray, none⟩ := by
    rw [encode_eq hdata, LineReading.ofText, LineReading.readFrom_intercalate hplain]
    simp
  have hparsed : parseLines #[] ((lines p).map ObjectLine.text) = .ok (lines p).toArray := by
    rw [parseLines_text hdata]
    simp
  rw [parse, parseReading, hreading, hparsed]

end ObjectFile

/-- An encoded instruction without a marker has one to three bytes. -/
theorem Instruction.length_bytes_of_encoded {i : Instruction} {value : Option Int64}
    (hencoding : i.encoding = i.encodingOf value) (hmarker : i.marker? = none) :
    1 ≤ i.bytes.length ∧ i.bytes.length ≤ maxSize := by
  rcases encodingOf_cases i value with ⟨marker, hmarked⟩ | ⟨mode, opcode, _, _, hcomplete, _⟩
  · rw [marker?, hencoding, hmarked] at hmarker
    exact absurd hmarker (by simp)
  · have hparams := (length_params value).1
    have hlength : i.bytes.length = (params value).length + 1 := by
      rw [bytes, hencoding, hcomplete, List.length_cons]
    have hmax : maxSize = 3 := rfl
    omega

namespace Assembly

variable {origin : UInt16} {cancelAt : Option Nat} {lines : List Text}

/-- Every memory record of a program that can be emitted has one to three bytes. -/
theorem length_bytes_of_isEmittable
    (emittable : (run origin cancelAt lines).program.isEmittable = true) {m : Memory}
    (hm : m ∈ (run origin cancelAt lines).program.memory) (contributions : Array UInt8) :
    1 ≤ (m.bytes contributions).length ∧
      (m.bytes contributions).length ≤ Instruction.maxSize := by
  cases m with
  | checksum c =>
    have hone : (Memory.bytes contributions (.checksum c)).length = 1 := rfl
    have hmax : Instruction.maxSize = 3 := rfl
    omega
  | instruction i =>
    obtain ⟨value, hvalue⟩ := (completed_of_isEmittable emittable).encoded hm
    exact Instruction.length_bytes_of_encoded hvalue (Program.marker?_eq_none emittable hm)

end Assembly

namespace Verification

/-- Lists of the same length differ in no line exactly when they are the same. -/
theorem mismatches_eq_nil_iff {expected got : List ObjectLine}
    (h : expected.length = got.length) : mismatches expected got = [] ↔ expected = got := by
  have hnumbered : ∀ (expected got : List ObjectLine) (number : Nat),
      expected.length = got.length →
      ((((expected.zip got).zipIdx number).filterMap fun line =>
        if line.1.1 = line.1.2 then none
        else some (LineMismatch.mk line.2 line.1.1 line.1.2)) = [] ↔ expected = got) := by
    intro expected
    induction expected with
    | nil =>
      intro got number hlength
      rw [List.length_nil, eq_comm, List.length_eq_zero_iff] at hlength
      simp [hlength]
    | cons e expected ih =>
      intro got number hlength
      cases got with
      | nil => simp at hlength
      | cons g got =>
        have hrest := ih got (number + 1) (by simpa using hlength)
        by_cases hsame : e = g
        · simpa [hsame] using hrest
        · simp [hsame]
  exact hnumbered expected got 1 h

/-- A comparison finds nothing exactly when the lines are the same. -/
theorem compare_eq_none_iff (expected got : List ObjectLine) :
    (compare expected got).2 = none ↔ expected = got := by
  unfold compare
  by_cases hlength : expected.length = got.length
  · have hnone := mismatches_eq_nil_iff hlength
    rw [if_neg (by simpa using hlength), ← hnone]
    simp
  · rw [if_pos hlength]
    simp only [reduceCtorEq, false_iff]
    exact fun hsame => hlength (congrArg List.length hsame)

/-- Verification of a file succeeds exactly when the file reads as the lines of the program. -/
theorem verify_eq_none_iff {tree : FileTree} {path content : Text}
    (hfile : tree.openNode path = .ok (.file content)) (p : Program) :
    (verify tree path p).2 = none ↔ ObjectFile.parse content = .ok (ObjectFile.lines p) := by
  have hpath : path.isEmpty = false := by
    apply eq_false_of_ne_true
    intro hempty
    rw [List.isEmpty_iff.mp hempty] at hfile
    simp [FileTree.openNode, FileTree.locate, FileTree.follow] at hfile
  have hreading : LineReading.ofNode path (.file content) = .ofText content := rfl
  rw [verify, hpath, if_neg Bool.false_ne_true, hfile]
  dsimp only
  rw [hreading, ← ObjectFile.parse]
  cases ObjectFile.parse content with
  | error cause => simp
  | ok got =>
    dsimp only
    rw [compare_eq_none_iff, Except.ok.injEq, eq_comm]

end Verification

namespace Assembly

/-- The object file of every program that can be emitted reads back as the object lines of the
program, each with one to three bytes of data; and whatever a file holds, and whatever the program
is, verification succeeds exactly when the file reads as the object lines of the program. -/
theorem object_file_reads_back :
    (∀ (origin : UInt16) (cancelAt : Option Nat) (lines : List Text),
      let program := (run origin cancelAt lines).program
      program.isEmittable = true →
        ObjectFile.parse (ObjectFile.encode program) = .ok (ObjectFile.lines program) ∧
          ∀ line ∈ ObjectFile.lines program, 1 ≤ line.data.length ∧ line.data.length ≤ 3) ∧
      ∀ (tree : FileTree) (path content : Text) (program : Program),
        tree.openNode path = .ok (.file content) →
          ((Verification.verify tree path program).2 = none ↔
            ObjectFile.parse content = .ok (ObjectFile.lines program)) := by
  constructor
  · intro origin cancelAt lines program emittable
    have hsizes : ∀ line ∈ ObjectFile.lines program,
        1 ≤ line.data.length ∧ line.data.length ≤ Instruction.maxSize := by
      intro line hline
      obtain ⟨m, hm, rfl⟩ := List.mem_map.mp hline
      exact length_bytes_of_isEmittable emittable hm _
    exact ⟨ObjectFile.parse_encode hsizes, hsizes⟩
  · intro tree path content program hfile
    exact Verification.verify_eq_none_iff hfile program

/-- A program with an implied instruction, a forward reference and a checksum reads back from its
object file, and verification of that file succeeds. -/
theorem object_file_reads_back_three :
    let lines := [Text.ascii "        NOP", Text.ascii "        JMP  LATER",
      Text.ascii "LATER   CHK"]
    let program := (run 0x8000 none lines).program
    let tree : FileTree := ⟨[([Text.ascii "t.o"], ObjectFile.encode program)], []⟩
    program.isEmittable = true ∧
      tree.openNode (Text.ascii "t.o") = .ok (.file (ObjectFile.encode program)) ∧
      ObjectFile.lines program = [⟨0x8000, [0xEA]⟩, ⟨0x8001, [0x4C, 0x04, 0x80]⟩, ⟨0x8004, [0x22]⟩] ∧
      ObjectFile.parse (ObjectFile.encode program) = .ok (ObjectFile.lines program) ∧
      (Verification.verify tree (Text.ascii "t.o") program).2 = none := by
  intro lines program tree
  have emittable : program.isEmittable = true := by decide +kernel
  have hopen : tree.openNode (Text.ascii "t.o") = .ok (.file (ObjectFile.encode program)) := by
    decide +kernel
  have hread := (object_file_reads_back.1 0x8000 none lines emittable).1
  exact ⟨emittable, hopen, by decide +kernel, hread,
    (object_file_reads_back.2 tree (Text.ascii "t.o") _ program hopen).mpr hread⟩

end Assembly

end ColumnAssembler
