import ColumnAssembler.Proofs.SecondPass
import Mathlib.Data.List.DropRight

/-!
# Checksums cancel

A checksum covers the records since the checksum before it and yet equals the exclusive or of all
bytes emitted from the start of the program, because the bytes up to and including a checksum
always cancel. The covered positions are fixed when the line is read; the values are read off the
final records, so the statement holds with the bytes of the second pass, and for the partial program
of a run that was stopped.
-/

namespace ColumnAssembler

/-- An exclusive or goes on from any byte. -/
theorem foldl_xor (bytes : List UInt8) (start : UInt8) :
    bytes.foldl (· ^^^ ·) start = start ^^^ xorAll bytes := by
  induction bytes generalizing start with
  | nil => exact UInt8.xor_zero.symm
  | cons b rest ih =>
    have hrest : xorAll (b :: rest) = b ^^^ xorAll rest := by
      rw [xorAll, List.foldl_cons, ih, UInt8.zero_xor]
    rw [List.foldl_cons, ih, hrest, UInt8.xor_assoc]

/-- The exclusive or of some bytes and then of others. -/
theorem xorAll_append (front rest : List UInt8) :
    xorAll (front ++ rest) = xorAll front ^^^ xorAll rest := by
  rw [xorAll, List.foldl_append, foldl_xor]
  rfl

/-- The exclusive or of one byte. -/
theorem xorAll_singleton (b : UInt8) : xorAll [b] = b := UInt8.zero_xor

/-- A checksum depends only on the contributions at the positions it covers. -/
theorem Checksum.value_congr {c : Checksum} {a b : Array UInt8}
    (h : ∀ k ∈ c.covered, a[k]? = b[k]?) : c.value a = c.value b := by
  unfold value
  congr 1
  apply List.map_congr_left
  intro k hk
  rw [h k hk]

namespace Memory

/-- The position behind the last checksum, zero when there is none. -/
def segmentStart (memory : List Memory) : Nat :=
  memory.length - (memory.rtakeWhile fun m => !m.isChecksum).length

/-- The positions behind the last checksum. -/
def openSegment (memory : List Memory) : List Nat :=
  List.range' (segmentStart memory) (memory.length - segmentStart memory)

/-- Every checksum covers the segment that was open before it. -/
def Covers (memory : List Memory) : Prop :=
  ∀ k c, memory[k]? = some (.checksum c) → c.covered = openSegment (memory.take k)

/-- A checksum closes the open segment. -/
theorem segmentStart_concat_checksum (memory : List Memory) {m : Memory}
    (h : m.isChecksum = true) : segmentStart (memory ++ [m]) = memory.length + 1 := by
  rw [segmentStart, List.rtakeWhile_concat_neg _ _ _ (by simp [h])]
  simp

/-- Any other record belongs to the open segment. -/
theorem segmentStart_concat_instruction (memory : List Memory) {m : Memory}
    (h : m.isChecksum = false) : segmentStart (memory ++ [m]) = segmentStart memory := by
  rw [segmentStart, List.rtakeWhile_concat_pos _ _ _ (by simp [h]), segmentStart]
  simp only [List.length_append, List.length_singleton]
  omega

/-- A segment starts among the records. -/
theorem segmentStart_le (memory : List Memory) : segmentStart memory ≤ memory.length :=
  Nat.sub_le _ _

/-- Only the kinds of the records count for where the open segment starts. -/
theorem segmentStart_congr {a b : List Memory} (h : a.map isChecksum = b.map isChecksum) :
    segmentStart a = segmentStart b := by
  induction a using List.reverseRecOn generalizing b with
  | nil => rw [List.map_nil, eq_comm, List.map_eq_nil_iff] at h; rw [h]
  | append_singleton front m ih =>
    induction b using List.reverseRecOn with
    | nil => simp at h
    | append_singleton front' m' _ =>
      rw [List.map_append, List.map_append] at h
      obtain ⟨hfront, hlast⟩ := List.append_inj' h rfl
      have hlength : front.length = front'.length := by simpa using congrArg List.length hfront
      have hkind : m.isChecksum = m'.isChecksum := by simpa using hlast
      cases hm : m.isChecksum with
      | false =>
        rw [segmentStart_concat_instruction _ hm,
          segmentStart_concat_instruction _ (hkind ▸ hm), ih hfront]
      | true =>
        rw [segmentStart_concat_checksum _ hm, segmentStart_concat_checksum _ (hkind ▸ hm), hlength]

/-- Coverage of the records before a last one and of that one. -/
theorem covers_concat (memory : List Memory) (m : Memory) :
    Covers (memory ++ [m]) ↔
      Covers memory ∧ ∀ c, m = .checksum c → c.covered = openSegment memory := by
  constructor
  · intro h
    refine ⟨fun k c hk => ?_, fun c hc => ?_⟩
    · have hbound := (List.getElem?_eq_some_iff.mp hk).1
      have hfront := h k c (by rw [List.getElem?_append_left hbound, hk])
      rwa [List.take_append_of_le_length (Nat.le_of_lt hbound)] at hfront
    · have hlast := h memory.length c (by rw [List.getElem?_concat_length, hc])
      rwa [List.take_left] at hlast
  · rintro ⟨hfront, hlast⟩ k c hk
    rcases getElem?_concat_cases hk with ⟨hlt, hearlier⟩ | ⟨hend, hsame⟩
    · rw [List.take_append_of_le_length (Nat.le_of_lt hlt)]
      exact hfront k c hearlier
    · rw [hend, List.take_left]
      exact hlast c hsame

/-- The contribution of a last record is read off the ones before it. -/
theorem contributions_concat (memory : List Memory) (m : Memory) :
    contributions (memory ++ [m]) =
      (contributions memory).push (m.contribution (contributions memory)) := by
  rw [contributions, List.foldl_append]
  rfl

/-- Every record has one contribution. -/
theorem size_contributions (memory : List Memory) :
    (contributions memory).size = memory.length := by
  induction memory using List.reverseRecOn with
  | nil => rfl
  | append_singleton front m ih =>
    rw [contributions_concat, Array.size_push, ih, List.length_append, List.length_singleton]

/-- Later records change no earlier contribution. -/
theorem contributions_append (memory later : List Memory) {k : Nat} (hk : k < memory.length) :
    (contributions (memory ++ later))[k]? = (contributions memory)[k]? := by
  induction later using List.reverseRecOn with
  | nil => rw [List.append_nil]
  | append_singleton front m ih =>
    have hne : k ≠ (contributions (memory ++ front)).size := by
      rw [size_contributions, List.length_append]
      omega
    rw [← List.append_assoc, contributions_concat, Array.getElem?_push, if_neg hne, ih]

/-- Later records change no checksum that covers earlier ones. -/
theorem value_append (memory later : List Memory) {c : Checksum}
    (h : ∀ k ∈ c.covered, k < memory.length) :
    c.value (contributions (memory ++ later)) = c.value (contributions memory) :=
  Checksum.value_congr fun k hk => contributions_append memory later (h k hk)

/-- The positions of an open segment are positions of records. -/
theorem lt_of_mem_openSegment {memory : List Memory} {k : Nat} (h : k ∈ openSegment memory) :
    k < memory.length := by
  have hle := segmentStart_le memory
  rw [openSegment, List.mem_range'_1] at h
  omega

/-- The bytes that records emit together. -/
def emitted (memory : List Memory) : List UInt8 := memory.flatMap (bytes (contributions memory))

/-- The bytes of a covered program do not depend on what follows it. -/
theorem bytes_append {memory : List Memory} (later : List Memory) (h : Covers memory) {m : Memory}
    (hm : m ∈ memory) :
    m.bytes (contributions (memory ++ later)) = m.bytes (contributions memory) := by
  cases m with
  | instruction i => rfl
  | checksum c =>
    obtain ⟨k, hk, hget⟩ := List.getElem_of_mem hm
    have hcovered := h k c (by rw [List.getElem?_eq_getElem hk, hget])
    rw [bytes, bytes, value_append memory later]
    intro j hj
    rw [hcovered] at hj
    have hlt := lt_of_mem_openSegment hj
    rw [List.length_take] at hlt
    omega

/-- The bytes emitted by the front of a covered program are those it emits alone. -/
theorem emitted_append {memory : List Memory} (later : List Memory) (h : Covers memory) :
    memory.flatMap (bytes (contributions (memory ++ later))) = emitted memory :=
  List.flatMap_congr fun _ hm => bytes_append later h hm

/-- A last record emits its bytes behind all others. -/
theorem emitted_concat {memory : List Memory} {m : Memory} (h : Covers (memory ++ [m])) :
    emitted (memory ++ [m]) = emitted memory ++ m.bytes (contributions memory) := by
  obtain ⟨hfront, hlast⟩ := (covers_concat memory m).mp h
  have hbytes : m.bytes (contributions (memory ++ [m])) = m.bytes (contributions memory) := by
    cases m with
    | instruction i => rfl
    | checksum c =>
      rw [bytes, bytes, value_append memory]
      intro j hj
      rw [hlast c rfl] at hj
      exact lt_of_mem_openSegment hj
  rw [emitted, List.flatMap_append, emitted_append _ hfront, List.flatMap_singleton, hbytes]

/-- The exclusive or of the contributions of the open segment. -/
def openValue (memory : List Memory) : UInt8 :=
  xorAll ((openSegment memory).map fun k => (contributions memory)[k]?.getD 0)

/-- A checksum leaves an empty segment open behind it. -/
theorem openValue_concat_checksum (memory : List Memory) (c : Checksum) :
    openValue (memory ++ [.checksum c]) = 0 := by
  have hempty : openSegment (memory ++ [.checksum c]) = [] := by
    rw [openSegment, segmentStart_concat_checksum memory rfl, List.length_append,
      List.length_singleton, Nat.sub_self]
    rfl
  rw [openValue, hempty]
  rfl

/-- An instruction adds its bytes to the open segment. -/
theorem openValue_concat_instruction (memory : List Memory) (i : Instruction) :
    openValue (memory ++ [.instruction i]) = openValue memory ^^^ xorAll i.bytes := by
  have hle := segmentStart_le memory
  have hsegment : openSegment (memory ++ [.instruction i]) =
      openSegment memory ++ [memory.length] := by
    have hlength : (memory ++ [Memory.instruction i]).length - segmentStart memory =
        memory.length - segmentStart memory + 1 := by
      rw [List.length_append, List.length_singleton]
      omega
    have hend : segmentStart memory + 1 * (memory.length - segmentStart memory) =
        memory.length := by omega
    rw [openSegment, segmentStart_concat_instruction memory rfl, hlength, List.range'_concat, hend,
      openSegment]
  have hearlier : (openSegment memory).map
        (fun k => (contributions (memory ++ [.instruction i]))[k]?.getD 0) =
      (openSegment memory).map fun k => (contributions memory)[k]?.getD 0 := by
    apply List.map_congr_left
    intro k hk
    rw [contributions_append memory _ (lt_of_mem_openSegment hk)]
  have hown : (contributions (memory ++ [.instruction i]))[memory.length]? =
      some (xorAll i.bytes) := by
    rw [contributions_concat, ← size_contributions, Array.getElem?_push_size]
    rfl
  rw [openValue, hsegment, List.map_append, xorAll_append, hearlier, List.map_singleton,
    xorAll_singleton, hown, Option.getD_some, openValue]

/-- The bytes of a covered program have the exclusive or of its open segment: all before it
cancel. -/
theorem xorAll_emitted {memory : List Memory} (h : Covers memory) :
    xorAll (emitted memory) = openValue memory := by
  induction memory using List.reverseRecOn with
  | nil => rfl
  | append_singleton front m ih =>
    obtain ⟨hfront, hlast⟩ := (covers_concat front m).mp h
    rw [emitted_concat h, xorAll_append, ih hfront]
    cases m with
    | instruction i =>
      rw [openValue_concat_instruction]
      rfl
    | checksum c =>
      -- The checksum is the value of the open segment, so the two cancel.
      have hvalue : c.value (contributions front) = openValue front := by
        rw [Checksum.value, hlast c rfl, openValue]
      rw [openValue_concat_checksum, bytes, xorAll_singleton, hvalue, UInt8.xor_self]

/-- The front of a covered program is covered. -/
theorem Covers.take {memory : List Memory} (h : Covers memory) (n : Nat) :
    Covers (memory.take n) := by
  intro k c hk
  have hbound := (List.getElem?_eq_some_iff.mp hk).1
  rw [List.length_take] at hbound
  rw [List.getElem?_take_of_lt (by omega)] at hk
  rw [List.take_take, Nat.min_eq_left (by omega)]
  exact h k c hk

/-- The front of a covered program emits the same bytes in the whole of it. -/
theorem emitted_take {memory : List Memory} (h : Covers memory) (n : Nat) :
    (memory.take n).flatMap (bytes (contributions memory)) = emitted (memory.take n) := by
  have happend := emitted_append (memory.drop n) (h.take n)
  rwa [List.take_append_drop] at happend

/-- In a covered program a checksum is the exclusive or of all bytes before it. -/
theorem Covers.value {memory : List Memory} (h : Covers memory) {k : Nat} {c : Checksum}
    (hk : memory[k]? = some (.checksum c)) :
    c.value (contributions memory) =
      xorAll ((memory.take k).flatMap (bytes (contributions memory))) := by
  have hvalue : c.value (contributions memory) = c.value (contributions (memory.take k)) := by
    have happend := value_append (memory.take k) (memory.drop k) (c := c) fun j hj => by
      rw [h k c hk] at hj
      exact lt_of_mem_openSegment hj
    rwa [List.take_append_drop] at happend
  rw [hvalue, emitted_take h, xorAll_emitted (h.take k), Checksum.value, h k c hk, openValue]

/-- Coverage is a matter of the checksums and of the kinds of the other records. -/
theorem Covers.congr {a b : List Memory} (h : Covers a)
    (hkinds : a.map isChecksum = b.map isChecksum)
    (hchecksums : ∀ (k : Nat) (c : Checksum), b[k]? = some (.checksum c) →
      a[k]? = some (.checksum c)) : Covers b := by
  intro k c hk
  have hlength : a.length = b.length := by simpa using congrArg List.length hkinds
  have htake : (a.take k).map isChecksum = (b.take k).map isChecksum := by
    rw [List.map_take, List.map_take, hkinds]
  rw [h k c (hchecksums k c hk), openSegment, openSegment, segmentStart_congr htake,
    List.length_take, List.length_take, hlength]

end Memory

namespace Scan

/-- The open segment of the first pass is that of its memory records, and every checksum covers the
segment that was open before it. -/
structure Segmented (s : Scan) : Prop where
  /-- The open segment starts behind the last checksum. -/
  checksumStart : s.checksumStart = Memory.segmentStart s.program.memory
  /-- Every checksum covers the segment that was open before it. -/
  covers : Memory.Covers s.program.memory

/-- Every step keeps the segments. -/
theorem Segmented.step {s t : Scan} {source : SourceLine} (hs : Segmented s)
    (h : Step s source t) : Segmented t := by
  cases h with
  | directive h =>
    have hmemory := h.memory
    exact ⟨by rw [h.checksumStart, hmemory, hs.checksumStart], by rw [hmemory]; exact hs.covers⟩
  | memory m become h =>
    have hmemory := h.memory
    have hstart := h.checksumStart
    rw [Program.size_memoryIndices] at hstart
    refine ⟨?_, ?_⟩
    · rw [hstart, hmemory]
      cases hm : m.isChecksum with
      | false => rw [Memory.segmentStart_concat_instruction _ hm, ← hs.checksumStart]; rfl
      | true => rw [Memory.segmentStart_concat_checksum _ hm]; rfl
    · rw [hmemory, Memory.covers_concat]
      refine ⟨hs.covers, fun c hc => ?_⟩
      cases become with
      | checksum =>
        obtain rfl := Memory.checksum.inj hc
        rw [Memory.openSegment, ← hs.checksumStart, Program.size_memoryIndices]
      | instruction _ => simp at hc

end Scan

namespace Assembly

/-- The segments hold all through the first pass. -/
theorem segmented_stateAfter (origin : UInt16) (cancelAt : Option Nat) (lines : List Text)
    (count : Nat) : Scan.Segmented (stateAfter origin cancelAt lines count) := by
  refine stateAfter_invariant ⟨rfl, fun k c hk => ?_⟩ (fun hs hstep => hs.step hstep) count
  -- There are no memory records at the opening.
  exact absurd (List.mem_of_getElem? hk) List.not_mem_nil

/-- Every checksum of the program that a run returns covers the segment open before it, also when
the run was stopped. -/
theorem covers_run (origin : UInt16) (cancelAt : Option Nat) (lines : List Text) :
    Memory.Covers (run origin cancelAt lines).program.memory := by
  obtain ⟨front, rest, hsplit, hrecords, _⟩ := records_run origin cancelAt lines
  have hscanned : Memory.Covers (scanned origin cancelAt lines).program.memory :=
    (segmented_stateAfter origin cancelAt lines lines.length).covers
  rw [Program.memory_eq, hsplit, Record.memoryOf_append] at hscanned
  rw [Program.memory_eq, hrecords, Record.memoryOf_append, Record.memoryOf_map_resolved]
  refine hscanned.congr ?_ ?_
  · simp [Function.comp_def]
  · intro k c hk
    rw [List.getElem?_append, List.length_map] at hk
    rw [List.getElem?_append]
    split at hk
    · next hlt =>
      rw [if_pos hlt]
      rw [List.getElem?_map, Option.map_eq_some_iff] at hk
      obtain ⟨m, hm, hresolved⟩ := hk
      rw [hm]
      cases m with
      | instruction i => simp [Memory.resolved] at hresolved
      | checksum c' => rw [← hresolved]; rfl
    · next hge =>
      rw [if_neg hge]
      exact hk

/-- Every checksum of the program that a run returns, complete or not, is the exclusive or of the
bytes of all memory records before it, earlier checksums included, though it covers only the
records since the checksum before it. So all bytes up to and including a checksum cancel. -/
theorem checksum_cancels (origin : UInt16) (cancelAt : Option Nat) (lines : List Text) {k : Nat}
    {c : Checksum}
    (hk : (run origin cancelAt lines).program.memory[k]? = some (.checksum c)) :
    let program := (run origin cancelAt lines).program
    c.value program.contributions =
        xorAll ((program.memory.take k).flatMap (Memory.bytes program.contributions)) ∧
      xorAll ((program.memory.take (k + 1)).flatMap (Memory.bytes program.contributions)) = 0 ∧
      c.covered = Memory.openSegment (program.memory.take k) := by
  have hcovers := covers_run origin cancelAt lines
  have hvalue := hcovers.value hk
  refine ⟨hvalue, ?_, hcovers k c hk⟩
  obtain ⟨hbound, hget⟩ := List.getElem?_eq_some_iff.mp hk
  rw [List.take_succ_eq_append_getElem hbound, List.flatMap_append, List.flatMap_singleton, hget,
    xorAll_append]
  rw [Program.contributions, ← hvalue, Memory.bytes, xorAll_singleton, UInt8.xor_self]

/-- The second checksum behind a forward reference covers one record, and all bytes cancel. -/
theorem checksum_cancels_second :
    let lines := [Text.ascii "        LDA  LATER", Text.ascii "        CHK",
      Text.ascii "LATER   NOP", Text.ascii "        CHK"]
    let program := (run 0x8000 none lines).program
    let c : Checksum := ⟨⟨4, Text.ascii "        CHK", [], Text.ascii "CHK", []⟩, 0x8005, [2]⟩
    program.memory[3]? = some (.checksum c) ∧
      c.value program.contributions = 0xEA ∧
      c.value program.contributions =
        xorAll ((program.memory.take 3).flatMap (Memory.bytes program.contributions)) :=
  ⟨by decide +kernel, by decide +kernel,
    (checksum_cancels 0x8000 none
      [Text.ascii "        LDA  LATER", Text.ascii "        CHK", Text.ascii "LATER   NOP",
        Text.ascii "        CHK"]
      (k := 3)
      (c := ⟨⟨4, Text.ascii "        CHK", [], Text.ascii "CHK", []⟩, 0x8005, [2]⟩)
      (by decide +kernel)).1⟩

end Assembly

end ColumnAssembler
