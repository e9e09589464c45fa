import ColumnAssembler.Proofs.SecondPass

/-!
# The layout of memory

The first pass gives every memory record the address that the counter has reached, and the counter
moves on by the bytes that are reserved for the record. The start of the program moves only as long
as nothing is reserved. So from the first record with a reservation on, addresses are the start
address and the sum of the reservations before them; the second pass moves no record and gives it at
most the bytes reserved for it, where some were. Hence the bytes of such records lie apart.
-/

namespace ColumnAssembler

namespace Memory

/-- The number of bytes that records take together. -/
def total : List Memory → Nat
  | [] => 0
  | m :: rest => m.length + total rest

/-- What records and others behind them take. -/
theorem total_append (front rest : List Memory) :
    total (front ++ rest) = total front + total rest := by
  induction front with
  | nil => exact (Nat.zero_add _).symm
  | cons m front ih => rw [List.cons_append, total, total, ih, Nat.add_assoc]

/-- A last record takes its bytes. -/
theorem total_concat (memory : List Memory) (m : Memory) :
    total (memory ++ [m]) = total memory + m.length := total_append memory [m]

/-- The number of bytes that the given number of records takes. -/
def offset (memory : List Memory) (count : Nat) : Nat := total (memory.take count)

/-- All records take what they take together. -/
@[simp] theorem offset_length (memory : List Memory) :
    offset memory memory.length = total memory := by
  rw [offset, List.take_length]

/-- One more record takes its bytes. -/
theorem offset_succ {memory : List Memory} {k : Nat} {m : Memory} (h : memory[k]? = some m) :
    offset memory (k + 1) = offset memory k + m.length := by
  obtain ⟨hbound, hget⟩ := List.getElem?_eq_some_iff.mp h
  rw [offset, List.take_succ_eq_append_getElem hbound, hget, total_concat, offset]

/-- More records take no fewer bytes, and the difference is what the ones between take. -/
theorem offset_add_between (memory : List Memory) {i j : Nat} (h : i ≤ j) :
    offset memory i + total ((memory.take j).drop i) = offset memory j := by
  have hsplit := List.take_append_drop i (memory.take j)
  rw [List.take_take, Nat.min_eq_left h] at hsplit
  rw [offset, offset, ← total_append, hsplit]

/-- More records take no fewer bytes. -/
theorem offset_mono (memory : List Memory) {i j : Nat} (h : i ≤ j) :
    offset memory i ≤ offset memory j := by
  have hbetween := offset_add_between memory h
  omega

/-- A record behind the counted ones takes nothing from them. -/
theorem offset_concat (memory : List Memory) (m : Memory) {k : Nat} (h : k ≤ memory.length) :
    offset (memory ++ [m]) k = offset memory k := by
  rw [offset, List.take_append_of_le_length h, offset]

/-- No front of the records takes more than all of them. -/
theorem offset_le_total (memory : List Memory) {k : Nat} (h : k ≤ memory.length) :
    offset memory k ≤ total memory := by
  have hmono := offset_mono memory h
  rwa [offset_length] at hmono

end Memory

namespace Scan

/-- The address counter is the start address and what all records take, and a record stands at the
start address and what the records before it take, once any of them takes a byte. -/
structure Laid (s : Scan) : Prop where
  /-- The counter has moved over all records. -/
  address : s.address = s.program.origin.toNat + Memory.total s.program.memory
  /-- A byte was taken exactly when some record takes one. -/
  emitted : s.emitted = true ↔ 0 < Memory.total s.program.memory
  /-- The counter is an address. -/
  room : s.address ≤ Fault.maxAddress
  /-- A record up to which a byte is taken stands where the counter was. -/
  placed : ∀ k m, s.program.memory[k]? = some m → 0 < Memory.offset s.program.memory (k + 1) →
    m.address.toNat = s.program.origin.toNat + Memory.offset s.program.memory k

/-- A state with room has an address for its counter. -/
theorem address_le_of_room {s : Scan} (h : s.limitFault? = none) :
    s.address ≤ Fault.maxAddress := by
  unfold limitFault? at h
  split at h
  · simp at h
  · next hle => exact Nat.le_of_not_lt hle

/-- A directive keeps the layout: it moves the start only while nothing is taken. -/
theorem Laid.directive {s t : Scan} {source : SourceLine} (hs : Laid s)
    (h : DirectiveStep s source t) (hroom : t.limitFault? = none) : Laid t := by
  have hmemory := h.memory
  refine ⟨?_, by rw [h.emitted, hmemory]; exact hs.emitted, address_le_of_room hroom, ?_⟩
  · rcases h.placed with ⟨haddress, horigin⟩ | ⟨hfree, haddress⟩
    · rw [haddress, horigin, hmemory, hs.address]
    · have hzero : ¬ 0 < Memory.total s.program.memory := by
        rw [← hs.emitted, hfree]
        decide
      rw [haddress, hmemory]
      omega
  · intro k m hk htaken
    rw [hmemory] at hk htaken ⊢
    rcases h.placed with ⟨_, horigin⟩ | ⟨hfree, _⟩
    · rw [horigin]
      exact hs.placed k m hk htaken
    · -- Nothing is taken yet, so no record is placed for good.
      have hbound := (List.getElem?_eq_some_iff.mp hk).1
      have hle := Memory.offset_le_total s.program.memory (k := k + 1) hbound
      have htotal := hs.emitted.mpr (by omega)
      rw [hfree] at htotal
      exact absurd htotal (by decide)

/-- A memory record keeps the layout: it stands at the counter, which moves over its bytes. -/
theorem Laid.memory {s t : Scan} {source : SourceLine} {m : Memory} (hs : Laid s)
    (become : Becomes s source m) (h : MemoryStep s m t) (hroom : t.limitFault? = none) :
    Laid t := by
  have hmemory := h.memory
  have htotal := Memory.total_concat s.program.memory m
  refine ⟨?_, ?_, address_le_of_room hroom, ?_⟩
  · rw [h.address, h.origin, hmemory, htotal, hs.address]
    omega
  · rw [h.emitted, hmemory, htotal, Bool.or_eq_true, decide_eq_true_eq, hs.emitted]
    omega
  · intro k m' hk htaken
    rw [hmemory] at hk htaken ⊢
    rw [h.origin]
    rcases getElem?_concat_cases hk with ⟨hlt, hearlier⟩ | ⟨hend, hsame⟩
    · rw [Memory.offset_concat _ _ hlt] at htaken
      rw [Memory.offset_concat _ _ (Nat.le_of_lt hlt)]
      exact hs.placed k m' hearlier htaken
    · rw [hend, Memory.offset_concat _ _ (Nat.le_refl _), ← hsame, become.place.2,
        UInt16.toNat_ofNat_of_lt' (Nat.lt_succ_of_le hs.room), hs.address, Memory.offset_length]

/-- Every step that leaves room keeps the layout. -/
theorem Laid.step {s t : Scan} {source : SourceLine} (hs : Laid s) (h : Step s source t)
    (hroom : t.limitFault? = none) : Laid t := by
  cases h with
  | directive h => exact hs.directive h hroom
  | memory m become h => exact hs.memory become h hroom

end Scan

namespace Memory

/-- A resolved record takes no more bytes than were reserved for it, if any were. -/
theorem length_resolved_le {table : SymbolTable} {m : Memory} (hok : m.unresolved? table = none)
    (hreserved : 1 ≤ m.length) : (m.resolved table).length ≤ m.length := by
  cases hp : m.isPending with
  | false =>
    have hsame := resolved_of_not_pending table hp
    exact Nat.le_of_eq (congrArg length hsame)
  | true =>
    cases m with
    | instruction i => exact Instruction.length_resolve_le hp hok hreserved
    | checksum c => exact absurd hp (by simp [isPending])

end Memory

/-- How a complete program lies in memory, against the program at the end of the first pass. The
length of a record at the end of the first pass is what was reserved for it. -/
structure LaidOut (before after : Program) : Prop where
  /-- Every record keeps its place in the order, its line number and its label. -/
  lines : after.records.toList.map Record.source = before.records.toList.map Record.source
  /-- Every memory record keeps its address. -/
  addresses : after.memory.map Memory.address = before.memory.map Memory.address
  /-- A record that is not pending stays as it is, with all its bytes. -/
  settled : ∀ (k : Nat) (r : Memory), before.memory[k]? = some r → r.isPending = false →
    after.memory[k]? = some r
  /-- From a record with a reservation on, addresses are sums of reservations. -/
  consecutive : ∀ (i j : Nat) (r a b : Memory), i < j → before.memory[i]? = some r →
    1 ≤ r.length → after.memory[i]? = some a → after.memory[j]? = some b →
    b.address.toNat = a.address.toNat + Memory.total ((before.memory.take j).drop i)
  /-- No reservation leaves the address space. -/
  room : ∀ (k : Nat) (r a : Memory), before.memory[k]? = some r → after.memory[k]? = some a →
    a.address.toNat + r.length ≤ 0xFFFF
  /-- A record takes at most what was reserved for it, and exactly that when it was not pending. -/
  lengths : ∀ (k : Nat) (r a : Memory), before.memory[k]? = some r → 1 ≤ r.length →
    after.memory[k]? = some a →
    a.length ≤ r.length ∧ (r.isPending = false → a.length = r.length)
  /-- The bytes of a record with a reservation end before every later record. -/
  apart : ∀ (i j : Nat) (r a b : Memory), i < j → before.memory[i]? = some r → 1 ≤ r.length →
    after.memory[i]? = some a → after.memory[j]? = some b →
    a.address.toNat + (a.bytes after.contributions).length ≤ b.address.toNat

namespace Assembly

variable {origin : UInt16} {cancelAt : Option Nat} {lines : List Text}

/-- A pass that was not stopped by some lines is laid out behind them. -/
theorem laid_stateAfter {count : Nat}
    (h : (Scan.scanLines cancelAt (opening origin lines) 0 (lines.take count)).2 = none) :
    Scan.Laid (stateAfter origin cancelAt lines count) := by
  refine Scan.scanLines_preserves_ok (fun hs hstep hroom => hs.step hstep hroom)
    (stateAfter_ok h (Nat.le_refl count)) ?_
  refine ⟨rfl, iff_of_false Bool.false_ne_true (Nat.lt_irrefl 0),
    Nat.le_of_lt_succ origin.toNat_lt, fun k m hk => ?_⟩
  exact absurd (List.mem_of_getElem? hk) List.not_mem_nil

/-- A first pass that was not stopped ends laid out. -/
theorem laid_scanned (h : (Scan.scanLines cancelAt (opening origin lines) 0 lines).2 = none) :
    Scan.Laid (scanned origin cancelAt lines) := laid_stateAfter (scanLines_take_length h)

/-- A memory record of a run that completes is one of the first pass, resolved. -/
theorem Completed.memory_at (h : Completed origin cancelAt lines) {k : Nat} {a : Memory}
    (ha : (run origin cancelAt lines).program.memory[k]? = some a) :
    ∃ r, (scanned origin cancelAt lines).program.memory[k]? = some r ∧
      a = r.resolved (scanned origin cancelAt lines).program.symbols ∧
      r.unresolved? (scanned origin cancelAt lines).program.symbols = none := by
  rw [h.memory, List.getElem?_map, Option.map_eq_some_iff] at ha
  obtain ⟨r, hr, rfl⟩ := ha
  exact ⟨r, hr, rfl, h.resolves_memory (List.mem_of_getElem? hr)⟩

/-- The memory record of a run that completes is the one of the first pass in its place, resolved. -/
theorem Completed.eq_resolved (h : Completed origin cancelAt lines) {k : Nat} {r a : Memory}
    (hr : (scanned origin cancelAt lines).program.memory[k]? = some r)
    (ha : (run origin cancelAt lines).program.memory[k]? = some a) :
    a = r.resolved (scanned origin cancelAt lines).program.symbols ∧
      r.unresolved? (scanned origin cancelAt lines).program.symbols = none := by
  obtain ⟨r', hr', hresolved⟩ := h.memory_at ha
  rw [hr, Option.some.injEq] at hr'
  rwa [hr']

/-- A record up to which something is reserved stands at the start address and the reservations
before it. -/
theorem Completed.address (h : Completed origin cancelAt lines) {k : Nat} {a : Memory}
    (ha : (run origin cancelAt lines).program.memory[k]? = some a)
    (htaken : 0 < Memory.offset (scanned origin cancelAt lines).program.memory (k + 1)) :
    a.address.toNat = (scanned origin cancelAt lines).program.origin.toNat +
      Memory.offset (scanned origin cancelAt lines).program.memory k := by
  obtain ⟨r, hr, rfl, _⟩ := h.memory_at ha
  rw [Memory.address_resolved]
  exact (laid_scanned h.scan).placed k r hr htaken

/-- Behind a record with a reservation, addresses are sums of reservations. -/
theorem Completed.consecutive (h : Completed origin cancelAt lines) {i j : Nat} {r a b : Memory}
    (hij : i < j) (hr : (scanned origin cancelAt lines).program.memory[i]? = some r)
    (hreserved : 1 ≤ r.length)
    (ha : (run origin cancelAt lines).program.memory[i]? = some a)
    (hb : (run origin cancelAt lines).program.memory[j]? = some b) :
    b.address.toNat = a.address.toNat +
      Memory.total (((scanned origin cancelAt lines).program.memory.take j).drop i) := by
  have hown := Memory.offset_succ hr
  have hlater := Memory.offset_mono (scanned origin cancelAt lines).program.memory
    (by omega : i + 1 ≤ j + 1)
  have hbetween := Memory.offset_add_between (scanned origin cancelAt lines).program.memory
    (Nat.le_of_lt hij)
  have haddressA := h.address ha (by omega)
  have haddressB := h.address hb (by omega)
  omega

/-- A record with a reservation takes at most that. -/
theorem Completed.lengths (h : Completed origin cancelAt lines) {k : Nat} {r a : Memory}
    (hr : (scanned origin cancelAt lines).program.memory[k]? = some r) (hreserved : 1 ≤ r.length)
    (ha : (run origin cancelAt lines).program.memory[k]? = some a) :
    a.length ≤ r.length ∧ (r.isPending = false → a.length = r.length) := by
  obtain ⟨rfl, hok⟩ := h.eq_resolved hr ha
  refine ⟨Memory.length_resolved_le hok hreserved, fun hp => ?_⟩
  rw [Memory.resolved_of_not_pending _ hp]

/-- The bytes of a record with a reservation end before every later record. -/
theorem Completed.apart (h : Completed origin cancelAt lines) {i j : Nat} {r a b : Memory}
    (hij : i < j) (hr : (scanned origin cancelAt lines).program.memory[i]? = some r)
    (hreserved : 1 ≤ r.length)
    (ha : (run origin cancelAt lines).program.memory[i]? = some a)
    (hb : (run origin cancelAt lines).program.memory[j]? = some b) :
    a.address.toNat + (a.bytes (run origin cancelAt lines).program.contributions).length ≤
      b.address.toNat := by
  have hown := Memory.offset_succ hr
  have hlater := Memory.offset_mono (scanned origin cancelAt lines).program.memory
    (by omega : i + 1 ≤ j)
  have hmore := Memory.offset_mono (scanned origin cancelAt lines).program.memory
    (by omega : j ≤ j + 1)
  have haddressA := h.address ha (by omega)
  have haddressB := h.address hb (by omega)
  have hlength := (h.lengths hr hreserved ha).1
  have hbytes : (a.bytes (run origin cancelAt lines).program.contributions).length = a.length := by
    obtain ⟨r', _, rfl, _⟩ := h.memory_at ha
    exact Memory.length_bytes (Memory.isPending_resolved _ r') _
  omega

/-- No reservation leaves the address space. -/
theorem Completed.room (h : Completed origin cancelAt lines) {k : Nat} {r a : Memory}
    (hr : (scanned origin cancelAt lines).program.memory[k]? = some r)
    (ha : (run origin cancelAt lines).program.memory[k]? = some a) :
    a.address.toNat + r.length ≤ 0xFFFF := by
  have hown := Memory.offset_succ hr
  rcases Nat.eq_zero_or_pos (Memory.offset (scanned origin cancelAt lines).program.memory (k + 1))
    with hzero | htaken
  · have hlt := a.address.toNat_lt
    omega
  · have haddress := h.address ha htaken
    have hlaid := laid_scanned h.scan
    have hbound := (List.getElem?_eq_some_iff.mp hr).1
    have htotal := Memory.offset_le_total (scanned origin cancelAt lines).program.memory
      (k := k + 1) hbound
    have hroom := hlaid.room
    rw [hlaid.address, Fault.maxAddress] at hroom
    omega

/-- A run that completes lays its records out: each stays where the first pass put it, one behind
the other, and takes at most the bytes reserved for it there. Memory records once added stay, so
what is reserved for a record is its length when it is added. -/
theorem memory_laid_out (origin : UInt16) (cancelAt : Option Nat) (lines : List Text)
    (completes : (run origin cancelAt lines).failure = none) :
    (∀ count, (stateAfter origin cancelAt lines count).program.memory <+:
        (scanned origin cancelAt lines).program.memory) ∧
      LaidOut (scanned origin cancelAt lines).program (run origin cancelAt lines).program := by
  have h := completed_of_failure_eq_none completes
  refine ⟨memory_prefix_scanned, ?_⟩
  exact
    { lines := by
        rw [h.records, List.map_map]
        exact List.map_congr_left fun r _ => r.source_resolved _
      addresses := by
        rw [h.memory, List.map_map]
        exact List.map_congr_left fun m _ => m.address_resolved _
      settled := fun k r hr hp => by
        rw [h.memory, List.getElem?_map, hr, Option.map_some,
          Memory.resolved_of_not_pending _ hp]
      consecutive := fun i j r a b hij hr hreserved ha hb => h.consecutive hij hr hreserved ha hb
      room := fun k r a hr ha => h.room hr ha
      lengths := fun k r a hr hreserved ha => h.lengths hr hreserved ha
      apart := fun i j r a b hij hr hreserved ha hb => h.apart hij hr hreserved ha hb }

/-- A forward reference to the first page takes one byte less than was reserved for it, and what
follows stays where it is. -/
theorem memory_laid_out_forward :
    let lines := [Text.ascii "        LDA  LATER", Text.ascii "        NOP",
      Text.ascii "LATER   EQU  $20"]
    (run 0x8000 none lines).failure = none ∧
      (scanned 0x8000 none lines).program.memory.map Memory.length = [3, 1] ∧
      (run 0x8000 none lines).program.memory.map Memory.length = [2, 1] ∧
      (run 0x8000 none lines).program.memory.map Memory.address = [0x8000, 0x8003] ∧
      LaidOut (scanned 0x8000 none lines).program (run 0x8000 none lines).program :=
  ⟨by decide +kernel, by decide +kernel, by decide +kernel, by decide +kernel,
    (memory_laid_out 0x8000 none _ (by decide +kernel)).2⟩

end Assembly

end ColumnAssembler
