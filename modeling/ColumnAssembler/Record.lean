import ColumnAssembler.Instruction

/-!
# Records

Every source line becomes a record. Directives emit nothing; instructions and checksums are memory
records, which have an address and may emit bytes. A checksum is the exclusive or of the bytes of
the memory records it covers, named by their positions among the memory records. It is read off
the contributions of all memory records, so it follows a covered record that is resolved later.
-/

namespace ColumnAssembler

/-- A line that emits nothing. -/
structure Directive where
  /-- The line it stands on. -/
  source : SourceLine
  /-- What the line is for. -/
  lineClass : LineClass
  deriving DecidableEq, Repr

/-- A line that emits a checksum byte. -/
structure Checksum where
  /-- The line it stands on. -/
  source : SourceLine
  /-- The address of the byte. -/
  address : UInt16
  /-- The positions of the covered records among the memory records, all before its own. -/
  covered : List Nat
  deriving DecidableEq, Repr

/-- The exclusive or of some bytes. -/
def xorAll (bytes : List UInt8) : UInt8 := bytes.foldl (· ^^^ ·) 0

/-- The checksum byte, given the contributions of the memory records. -/
def Checksum.value (c : Checksum) (contributions : Array UInt8) : UInt8 :=
  xorAll (c.covered.map fun k => contributions[k]?.getD 0)

/-- A record with an address. -/
inductive Memory where
  /-- An instruction of the processor. -/
  | instruction (i : Instruction)
  /-- A checksum byte. -/
  | checksum (c : Checksum)
  deriving DecidableEq, Repr

namespace Memory

/-- The line the record stands on. -/
def source : Memory → SourceLine
  | instruction i => i.source
  | checksum c => c.source

/-- The address of the first byte. -/
def address : Memory → UInt16
  | instruction i => i.address
  | checksum c => c.address

/-- The number of bytes that the record takes. -/
def length : Memory → Nat
  | instruction i => i.length
  | checksum _ => 1

/-- The error marker. -/
def marker? : Memory → Option Marker
  | instruction i => i.marker?
  | checksum _ => none

/-- The bytes that the record emits, given the contributions of the memory records. -/
def bytes (contributions : Array UInt8) : Memory → List UInt8
  | instruction i => i.bytes
  | checksum c => [c.value contributions]

/-- The contribution of a record to a checksum that covers it. -/
def contribution (contributions : Array UInt8) (m : Memory) : UInt8 :=
  xorAll (m.bytes contributions)

/-- The contributions of memory records in order, each read off those before it. -/
def contributions (memory : List Memory) : Array UInt8 :=
  memory.foldl (fun earlier m => earlier.push (m.contribution earlier)) #[]

/-- The blanks that fill up an instruction to the longest one. -/
def filler (count : Nat) : Memory → Text
  | instruction _ => List.replicate (3 * (Instruction.maxSize - count)) Byte.space
  | checksum _ => []

/-- The assembly field: the address and the emitted bytes, empty when there are none. -/
def assembly (contributions : Array UInt8) (m : Memory) : Text :=
  match m.bytes contributions with
  | [] => []
  | data =>
    Numeral.hexWord m.address ++ [Byte.colon]
      ++ data.flatMap (fun b => Byte.space :: Numeral.hexByte b) ++ m.filler data.length

end Memory

/-- What a source line became. -/
inductive Record where
  /-- A line that emits nothing. -/
  | directive (d : Directive)
  /-- A line with an address. -/
  | memory (m : Memory)
  deriving DecidableEq, Repr

namespace Record

/-- The line the record stands on. -/
def source : Record → SourceLine
  | directive d => d.source
  | memory m => m.source

/-- The number of bytes that the record takes. -/
def length : Record → Nat
  | directive _ => 0
  | memory m => m.length

/-- The error marker. -/
def marker? : Record → Option Marker
  | directive _ => none
  | memory m => m.marker?

/-- The memory record, if it is one. -/
def memory? : Record → Option Memory
  | directive _ => none
  | memory m => some m

/-- The bytes that the record emits, given the contributions of the memory records. -/
def bytes (contributions : Array UInt8) : Record → List UInt8
  | directive _ => []
  | memory m => m.bytes contributions

/-- The assembly field, given the contributions of the memory records. -/
def assembly (contributions : Array UInt8) : Record → Text
  | directive _ => []
  | memory m => m.assembly contributions

/-- The memory records among some records. -/
def memoryOf (records : List Record) : List Memory := records.filterMap memory?

/-- The memory records of some records and then of others. -/
theorem memoryOf_append (front rest : List Record) :
    memoryOf (front ++ rest) = memoryOf front ++ memoryOf rest :=
  List.filterMap_append

/-- A memory record at the end is the last one. -/
theorem memoryOf_concat_memory (records : List Record) (m : Memory) :
    memoryOf (records ++ [.memory m]) = memoryOf records ++ [m] := by
  rw [memoryOf_append]
  rfl

/-- A directive at the end is no memory record. -/
theorem memoryOf_concat_directive (records : List Record) (d : Directive) :
    memoryOf (records ++ [.directive d]) = memoryOf records := by
  rw [memoryOf_append]
  exact List.append_nil _

/-- The positions of the memory records among some records, in order. -/
def memoryIndices (records : List Record) : List Nat :=
  (List.range records.length).filter fun k => (records[k]?.bind memory?).isSome

/-- One more record has its position at the end, if it is a memory record. -/
theorem memoryIndices_concat (records : List Record) (r : Record) :
    memoryIndices (records ++ [r]) =
      memoryIndices records ++ if r.memory?.isSome then [records.length] else [] := by
  have hfront : (List.range records.length).filter
      (fun k => ((records ++ [r])[k]?.bind memory?).isSome) = memoryIndices records :=
    List.filter_congr fun k hk => by rw [List.getElem?_append_left (List.mem_range.mp hk)]
  rw [memoryIndices, List.length_append, List.length_singleton, List.range_succ,
    List.filter_append, hfront, List.filter_cons, List.getElem?_concat_length, Option.bind_some,
    List.filter_nil]

/-- The positions depend only on which records are memory records. -/
theorem memoryIndices_congr {records others : List Record}
    (h : records.map (fun r => r.memory?.isSome) = others.map fun r => r.memory?.isSome) :
    memoryIndices records = memoryIndices others := by
  have hlength : records.length = others.length := by simpa using congrArg List.length h
  have hat : ∀ k : Nat, records[k]?.map (fun r => r.memory?.isSome) =
      others[k]?.map fun r => r.memory?.isSome := by
    intro k
    rw [← List.getElem?_map, ← List.getElem?_map, h]
  rw [memoryIndices, memoryIndices, hlength]
  refine List.filter_congr fun k _ => ?_
  have hk := hat k
  cases hr : records[k]? with
  | none =>
    rw [hr, Option.map_none, eq_comm, Option.map_eq_none_iff] at hk
    rw [hk]
  | some r =>
    rw [hr, Option.map_some, eq_comm, Option.map_eq_some_iff] at hk
    obtain ⟨o, ho, hkind⟩ := hk
    rw [ho, Option.bind_some, Option.bind_some, hkind]

/-- Some records are found again at their positions. -/
theorem filterMap_getElem?_range {β : Type} (f : Record → Option β) (records : List Record) :
    (List.range records.length).filterMap (fun k => records[k]?.bind f) = records.filterMap f := by
  induction records with
  | nil => rfl
  | cons r rest ih =>
    rw [List.length_cons, List.range_succ_eq_map, List.filterMap_cons, List.filterMap_map,
      List.filterMap_cons]
    have hrest : (List.range rest.length).filterMap
        ((fun k => (r :: rest)[k]?.bind f) ∘ Nat.succ) = rest.filterMap f := by
      rw [← ih]
      rfl
    rw [hrest]
    rfl

/-- Reading the records at the positions of the memory records gives the memory records. -/
theorem filterMap_memoryIndices (records : List Record) :
    (memoryIndices records).filterMap (fun k => records[k]?.bind memory?) = memoryOf records := by
  rw [memoryIndices, List.filterMap_filter, memoryOf, ← filterMap_getElem?_range]
  congr 1
  funext k
  cases records[k]?.bind memory? <;> rfl

/-- There are as many positions as memory records. -/
theorem length_memoryIndices (records : List Record) :
    (memoryIndices records).length = (memoryOf records).length := by
  rw [← filterMap_memoryIndices, memoryIndices, List.length_filterMap_eq_countP, eq_comm,
    List.countP_eq_length]
  exact fun k hk => (List.mem_filter.mp hk).2

/-- The position among the memory records that a record at the given position has or would have. -/
def memoryPosition (records : List Record) (index : Nat) : Nat :=
  (memoryOf (records.take index)).length

end Record

end ColumnAssembler
